import Mathlib

/-!
# Computations that may not end

The parsers recur on a fuel, and give some answer when it is used up.  To say that it never is, the
same parser is written once more without any fuel, as a computation that may not end: the least
solution of its equations, which gives nothing where they lead on and on.  `Returns` says that such
a computation does end, with the result and the state of the parser with fuel, and what holds of
them; it is shown step by step, one rule for each way to put computations together.
-/

namespace Storyline

variable {σ α β : Type}

/-- A computation over a state that may not end; then it gives nothing. -/
abbrev Unbounded (σ : Type) := StateT σ Option

namespace Unbounded

/-- What always ends may stand among what may not. -/
instance : MonadLift (StateM σ) (Unbounded σ) := ⟨fun m s => some (m s)⟩

/-- Started from `s`, the computation `u` ends, with a result and a state that satisfy `post`. -/
def Ends (u : Unbounded σ α) (s : σ) (post : α → σ → Prop) : Prop :=
  ∃ a s', u s = some (a, s') ∧ post a s'

/-- Started from `s`, the computation `u` ends as `m` does, with a result and a state that satisfy
`post`. -/
def Returns (u : Unbounded σ α) (m : StateM σ α) (s : σ) (post : α → σ → Prop) : Prop :=
  u s = some (m s) ∧ post (m s).1 (m s).2

variable {u : Unbounded σ α} {m : StateM σ α} {s : σ} {post : α → σ → Prop}

theorem Returns.imp {post' : α → σ → Prop} (h : Returns u m s post)
    (imp : ∀ a s', post a s' → post' a s') : Returns u m s post' :=
  ⟨h.1, imp _ _ h.2⟩

theorem Returns.ends (h : Returns u m s post) : Ends u s post :=
  ⟨(m s).1, (m s).2, h.1, h.2⟩

theorem Returns.pure {a : α} (h : post a s) :
    Returns (pure a : Unbounded σ α) (Pure.pure a) s post :=
  ⟨rfl, h⟩

/-- One computation after the other: the second one is judged where the first one ends. -/
theorem Returns.bind {f : α → Unbounded σ β} {g : α → StateM σ β} {post' : β → σ → Prop}
    (h : Returns u m s post) (hf : ∀ a s', post a s' → Returns (f a) (g a) s' post') :
    Returns (u >>= f) (m >>= g) s post' := by
  obtain ⟨hu, hpost⟩ := h
  obtain ⟨hrun, hpost'⟩ := hf _ _ hpost
  refine ⟨?_, hpost'⟩
  show (u s).bind (fun p => f p.1 p.2) = _
  rw [hu]
  exact hrun

/-- A step that always ends. -/
theorem Returns.lift {f : α → Unbounded σ β} {g : α → StateM σ β} {post' : β → σ → Prop}
    (h : Returns (f (m s).1) (g (m s).1) (m s).2 post') :
    Returns ((liftM m : Unbounded σ α) >>= f) (m >>= g) s post' :=
  h

/-- A computation that always ends. -/
theorem Returns.last (h : post (m s).1 (m s).2) :
    Returns (liftM m : Unbounded σ α) m s post :=
  ⟨rfl, h⟩

theorem Returns.ite {c : Prop} [Decidable c] {u' : Unbounded σ α} {m' : StateM σ α}
    (h : c → Returns u m s post) (h' : ¬ c → Returns u' m' s post) :
    Returns (if c then u else u') (if c then m else m') s post := by
  split
  · next hc => exact h hc
  · next hc => exact h' hc

/-- One of two computations and then a third one, which may stand in both branches. -/
theorem Returns.join {c : Prop} [Decidable c] {u' : Unbounded σ α} {m' : StateM σ α}
    {f : α → Unbounded σ β} {g : α → StateM σ β} {post' : β → σ → Prop}
    (h : Returns (if c then u else u') (if c then m else m') s post)
    (hf : ∀ a s', post a s' → Returns (f a) (g a) s' post') :
    Returns ((if c then u else u') >>= f) (if c then m >>= g else m' >>= g) s post' := by
  rw [← apply_ite (· >>= g)]
  exact h.bind hf

end Unbounded

end Storyline
