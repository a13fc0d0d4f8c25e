import Mathlib.Data.List.Basic
import Storyline.Diagnostic.Bag
import Storyline.Proofs.Source.Bounds

/-!
# Diagnostics inside a file

A diagnostic is `Within` a file of a given size if its own span, the spans of its notes and those of
the edits of its fixes all belong to that file and lie inside of it.  Collecting, sorting and
dropping diagnostics makes no new ones, so whatever holds of all that went in holds of all that
comes out.
-/

namespace Storyline

/-- A span that belongs to a file of `size` bytes and lies inside it. -/
structure Span.Within (s : Span) (file : FileId) (size : Nat) : Prop where
  file : s.file = file
  ordered : s.start ≤ s.stop
  within : s.stop ≤ size

theorem Span.In.toWithin {s : Span} {f : File} (h : s.In f) : s.Within f.id f.size :=
  ⟨h.file, h.ordered, h.within⟩

/-- A diagnostic about a file of `size` bytes: it, its notes and its fixes lie inside it. -/
structure Diagnostic.Within (d : Diagnostic) (file : FileId) (size : Nat) : Prop where
  span : d.span.Within file size
  notes : ∀ n ∈ d.notes, n.span.Within file size
  fixes : ∀ x ∈ d.fixes, ∀ e ∈ x.edits, e.span.Within file size

/-- A diagnostic with no notes and no fixes. -/
structure Diagnostic.Plain (d : Diagnostic) : Prop where
  notes : d.notes = []
  fixes : d.fixes = []

namespace Diagnostic

variable {file : FileId} {size : Nat} {span : Span} {d : Diagnostic}

theorem Plain.within (h : d.Plain) (hs : d.span.Within file size) : d.Within file size :=
  ⟨hs, by rw [h.notes]; exact List.forall_mem_nil _, by rw [h.fixes]; exact List.forall_mem_nil _⟩

theorem plain_error (code : Code) (message : Bytes) : (error code span message).Plain := ⟨rfl, rfl⟩

theorem plain_warning (code : Code) (message : Bytes) : (warning code span message).Plain :=
  ⟨rfl, rfl⟩

theorem Within.error (h : span.Within file size) (code : Code) (message : Bytes) :
    (error code span message).Within file size :=
  (plain_error code message).within h

theorem Within.warning (h : span.Within file size) (code : Code) (message : Bytes) :
    (warning code span message).Within file size :=
  (plain_warning code message).within h

theorem Plain.shift (h : d.Plain) (base : Nat) (file : FileId) : (d.shift base file).Plain :=
  ⟨by rw [Diagnostic.shift, h.notes]; rfl, h.fixes⟩

end Diagnostic

/-- A span inside a fragment of a file that starts at `base` is inside the file once it is moved
there. -/
theorem Span.Within.shift {s : Span} {file file' : FileId} {size base whole : Nat}
    (h : s.Within file size) (hfit : base + size ≤ whole) (small : whole < Word.modulus) :
    (s.shift base file').Within file' whole := by
  have hordered := h.ordered
  have hwithin := h.within
  have hstart : Word.add s.start base = s.start + base := Nat.mod_eq_of_lt (by omega)
  have hstop : Word.add s.stop base = s.stop + base := Nat.mod_eq_of_lt (by omega)
  exact ⟨rfl, by simp only [Span.shift, hstart, hstop]; omega,
    by simp only [Span.shift, hstop]; omega⟩

/-! ## Collecting -/

namespace Bag

variable {b : Bag} {d : Diagnostic} {ds : List Diagnostic} {P : Diagnostic → Prop}

/-- What a bag holds. -/
def All (b : Bag) (P : Diagnostic → Prop) : Prop := ∀ d ∈ b.items, P d

theorem All.withLimit (limit : Int) : (withLimit limit).All P := by
  intro d hd
  simp [Bag.withLimit] at hd

theorem All.add (h : b.All P) (hd : P d) : (b.add d).All P := by
  intro e he
  rw [Bag.add] at he
  split at he
  · exact h e he
  · rcases Array.mem_push.mp he with he | rfl
    · exact h e he
    · exact hd

theorem All.merge (h : b.All P) (hds : ∀ d ∈ ds, P d) : (b.merge ds).All P := by
  induction ds generalizing b with
  | nil => exact h
  | cons d ds ih =>
    obtain ⟨hd, hds⟩ := List.forall_mem_cons.mp hds
    exact ih (h.add hd) hds

theorem All.sorted (h : b.All P) : ∀ d ∈ b.sort.items.toList, P d := by
  intro d hd
  rw [Bag.sort, List.toList_toArray, Diagnostic.sorted, List.mem_mergeSort,
    Array.mem_toList_iff] at hd
  exact h d hd

/-- A filter in front of a bag adds nothing that was not reported. -/
theorem All.report {r : Distinct} (h : r.bag.All P) (hds : ∀ d ∈ ds, P d) :
    (ds.foldl Distinct.report r).bag.All P := by
  induction ds generalizing r with
  | nil => exact h
  | cons d ds ih =>
    obtain ⟨hd, hds⟩ := List.forall_mem_cons.mp hds
    refine ih ?_ hds
    rw [Distinct.report]
    split
    · exact h
    · exact h.add hd

end Bag

end Storyline
