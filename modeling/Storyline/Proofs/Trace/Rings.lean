import Mathlib.Data.List.DropRight
import Mathlib.Data.List.Rotate
import Storyline.Trace.Tracer

/-!
# Rings keep the latest values

A ring shows the values that were pushed last, the oldest first, as many as it has room for.  Until
it is full these are the slots in front of the head; from then on they are all slots, and go round
from the head (`Ring.toList_of_full`).  So a push puts its value at the end of what the ring shows,
and drops the oldest one if there is no room left (`Ring.toList_push`): after any number of pushes,
however often the head came round, the ring shows the end of everything that was pushed
(`Ring.toList_pushAll`).

A tracer puts every event into its ring unless it is off, whatever else its level lets through.
What it shows is therefore the end of what it was told of (`recent_emitAll`).
-/

namespace Storyline.Trace

/-! ## The end of a list -/

/-- The end of a list and of what comes behind it is all that is needed to tell the end of both. -/
theorem rtake_append {α : Type} (l m : List α) (n : Nat) :
    (l.rtake n ++ m).rtake n = (l ++ m).rtake n := by
  simp only [List.rtake, List.length_append, List.length_drop, List.drop_append, List.drop_drop]
  congr 2 <;> omega

theorem rtake_min {α : Type} (l : List α) (n : Nat) : l.rtake (min l.length n) = l.rtake n := by
  rw [List.rtake, List.rtake]
  congr 1
  omega

/-! ## Pushing values -/

namespace Ring

variable {α : Type} {r : Ring α}

/-- The head is one of the slots. -/
def Sound (r : Ring α) : Prop := r.head < r.capacity

theorem sound_ofSize [Inhabited α] (size : Int) : (ofSize size : Ring α).Sound := by
  rw [Sound, capacity, ofSize, Array.size_replicate]
  dsimp only
  split
  · omega
  · exact Nat.succ_pos _

@[simp] theorem toList_ofSize [Inhabited α] (size : Int) : (ofSize size : Ring α).toList = [] := rfl

@[simp] theorem capacity_push (r : Ring α) (a : α) : (r.push a).capacity = r.capacity :=
  Array.size_setIfInBounds

theorem Sound.push (h : r.Sound) (a : α) : (r.push a).Sound := by
  rw [Sound, capacity_push]
  exact Nat.mod_lt _ (Nat.zero_lt_of_lt h)

theorem Sound.head_lt (h : r.Sound) : r.head < r.slots.toList.length := by
  rw [Array.length_toList]
  exact h

/-- The values of a full ring go round from the head. -/
theorem toList_of_full (h : r.Sound) (hfull : r.full = true) :
    r.toList = r.slots.toList.rotate r.head := by
  rw [toList, if_pos hfull, List.rotate_eq_drop_append_take (Nat.le_of_lt h.head_lt)]

theorem length_toList_le (h : r.Sound) : r.toList.length ≤ r.capacity := by
  cases hfull : r.full with
  | true => rw [toList_of_full h hfull, List.length_rotate, Array.length_toList, capacity]
  | false =>
    rw [toList, if_neg (by simp [hfull]), List.length_take]
    exact Nat.min_le_left _ _ |>.trans (Nat.le_of_lt h)

/-- Where the oldest value was, the newest one stands last when the values go round from the slot
behind it. -/
theorem rotate_set {l : List α} {i : Nat} (hi : i < l.length) (a : α) :
    (l.set i a).rotate (i + 1) = (l.rotate i).drop 1 ++ [a] := by
  have hset : l.set i a = l.take i ++ a :: l.drop (i + 1) := by
    rw [List.set_eq_take_append_cons_drop, if_pos hi]
  have hlength : (l.take i ++ [a]).length = i + 1 := by
    rw [List.length_append, List.length_take, Nat.min_eq_left (Nat.le_of_lt hi),
      List.length_singleton]
  calc (l.set i a).rotate (i + 1)
      = (l.take i ++ [a] ++ l.drop (i + 1)).rotate (l.take i ++ [a]).length := by
        rw [hset, hlength, List.append_assoc, List.singleton_append]
    _ = l.drop (i + 1) ++ l.take i ++ [a] := by
        rw [List.rotate_append_length_eq, List.append_assoc]
    _ = (l.rotate i).drop 1 ++ [a] := by
        rw [List.rotate_eq_drop_append_take (Nat.le_of_lt hi), List.drop_eq_getElem_cons hi]
        rfl

theorem take_set_succ {l : List α} {i : Nat} (hi : i < l.length) (a : α) :
    (l.set i a).take (i + 1) = l.take i ++ [a] := by
  rw [List.take_add_one, List.getElem?_set_self hi, List.take_set_of_le (Nat.le_refl i)]
  rfl

/-- A push into a ring that is not full puts its value behind the others; it fills the ring if it
goes into the last slot. -/
theorem toList_push_of_not_full (h : r.Sound) (hfull : r.full = false) (a : α) :
    (r.push a).toList = r.toList ++ [a] := by
  have hshown : r.toList = r.slots.toList.take r.head := by
    rw [toList, if_neg (by simp [hfull])]
  rw [hshown, ← take_set_succ h.head_lt, ← Array.toList_setIfInBounds, toList, push, hfull]
  dsimp only
  rcases Nat.lt_or_ge (r.head + 1) r.slots.size with hroom | hlast
  · -- the head moves on, and is not back at the first slot
    rw [Nat.mod_eq_of_lt hroom]
    exact if_neg (by simp)
  · -- the head comes back: the values are all slots, from the first one on
    have hend : r.head + 1 = r.slots.size := Nat.le_antisymm h hlast
    have hall : (r.slots.setIfInBounds r.head a).toList.take (r.head + 1)
        = (r.slots.setIfInBounds r.head a).toList := by
      refine List.take_of_length_le ?_
      rw [Array.length_toList, Array.size_setIfInBounds, hend]
    rw [hend, Nat.mod_self, ← hend, hall]
    exact List.append_nil _

/-- A push puts its value at the end and keeps as many of the latest values as there is room for. -/
theorem toList_push (h : r.Sound) (a : α) :
    (r.push a).toList = (r.toList ++ [a]).rtake r.capacity := by
  cases hfull : r.full with
  | false =>
    -- nothing is dropped: what is shown has to fit after the push as well
    have hpushed := toList_push_of_not_full h hfull a
    have hfits : (r.toList ++ [a]).length ≤ r.capacity := by
      rw [← hpushed, ← capacity_push r a]
      exact length_toList_le (h.push a)
    rw [hpushed, List.rtake, Nat.sub_eq_zero_of_le hfits, List.drop_zero]
  | true =>
    -- the value takes the place of the oldest one
    have hstill : (r.push a).full = true := by rw [push, hfull, Bool.true_or]
    have hlength : r.toList.length = r.capacity := by
      rw [toList_of_full h hfull, List.length_rotate, Array.length_toList, capacity]
    have hsize : (r.slots.toList.set r.head a).length = r.slots.size := by
      rw [List.length_set, Array.length_toList]
    have hdrop : (r.toList ++ [a]).length - r.capacity = 1 := by
      rw [List.length_append, hlength, Nat.add_sub_cancel_left, List.length_singleton]
    calc (r.push a).toList
        = (r.slots.toList.set r.head a).rotate ((r.head + 1) % r.slots.size) := by
          rw [toList_of_full (h.push a) hstill, push, Array.toList_setIfInBounds]
      _ = r.toList.drop 1 ++ [a] := by
          rw [← hsize, List.rotate_mod, rotate_set h.head_lt, toList_of_full h hfull]
      _ = (r.toList ++ [a]).rtake r.capacity := by
          rw [List.rtake, hdrop, List.drop_append_of_le_length]
          rw [hlength]
          exact Nat.succ_le_of_lt (Nat.zero_lt_of_lt h)

/-- A ring after values were pushed one after the other. -/
def pushAll (r : Ring α) (as : List α) : Ring α := as.foldl push r

/-- After any number of pushes a ring shows the end of everything that was pushed. -/
theorem toList_pushAll (h : r.Sound) (as : List α) :
    (r.pushAll as).toList = (r.toList ++ as).rtake r.capacity := by
  induction as generalizing r with
  | nil =>
    rw [List.append_nil, List.rtake, Nat.sub_eq_zero_of_le (length_toList_le h), List.drop_zero]
    rfl
  | cons a as ih =>
    calc (r.pushAll (a :: as)).toList
        = ((r.push a).toList ++ as).rtake r.capacity := by
          rw [← capacity_push r a]
          exact ih (h.push a)
      _ = (r.toList ++ a :: as).rtake r.capacity := by
          rw [toList_push h, rtake_append, List.append_assoc, List.singleton_append]

example : ((ofSize 3).pushAll [1, 2, 3, 4, 5] : Ring Nat).toList = [3, 4, 5] := by decide

end Ring

/-! ## Telling of events -/

namespace Tracer

/-- The event that a tracer shows for one that it kept: with the values that its span has now, if it
shows those of a span, and else as it was told of. -/
def shown (t : Tracer) (k : Kept) : Event :=
  match k.owner.bind fun i => t.spans[i]? with
  | some s => { k.event with extra := s.extra }
  | none => k.event

theorem recent_eq (t : Tracer) : t.recent = (t.ring.elim [] Ring.toList).map t.shown := rfl

/-- The tracer with a new ring of a given size. -/
def keeping (t : Tracer) (size : Int) : Tracer := { t with ring := some (.ofSize size) }

/-- A tracer that was told of events one after the other. -/
def emitAll (t : Tracer) (told : List Kept) : Tracer :=
  told.foldl (fun t k => t.emit k.event k.owner) t

variable (t : Tracer) (e : Event) (owner : Option Nat)

/-- An event goes into the ring unless the tracer is off, whether or not it is written. -/
theorem emit_ring : (t.emit e owner).ring =
    if t.level = .off then t.ring else t.ring.map (·.push ⟨e, owner⟩) := by
  have henabled : t.isEnabled = true ↔ ¬ t.level = .off := bne_iff_ne
  simp only [emit, henabled, ite_not]
  by_cases hoff : t.level = .off
  · simp only [if_pos hoff]
    split <;> rfl
  · simp only [if_neg hoff]
    split <;> rfl

@[simp] theorem emit_level : (t.emit e owner).level = t.level := by
  rw [emit]
  dsimp only
  split <;> split <;> rfl

@[simp] theorem emit_spans : (t.emit e owner).spans = t.spans := by
  rw [emit]
  dsimp only
  split <;> split <;> rfl

theorem emitAll_spans (told : List Kept) : (t.emitAll told).spans = t.spans := by
  induction told generalizing t with
  | nil => rfl
  | cons k told ih => exact (ih _).trans (emit_spans t k.event k.owner)

theorem emitAll_ring (told : List Kept) : (t.emitAll told).ring =
    if t.level = .off then t.ring else t.ring.map (·.pushAll told) := by
  induction told generalizing t with
  | nil =>
    have hsame : t.ring.map (·.pushAll []) = t.ring := Option.map_id_apply
    rw [hsame, ite_self]
    rfl
  | cons k told ih =>
    rw [show t.emitAll (k :: told) = (t.emit k.event k.owner).emitAll told from rfl, ih, emit_level,
      emit_ring]
    split
    · rfl
    · rw [Option.map_map]
      rfl

/-- What a tracer shows with a new ring after it was told of events, whatever it was told before: of
those events as many as the ring has room for, the latest ones and the oldest of them first, or none
if it is off.  A size that is not positive gives room for 1024.  Events that show no span's values
are shown as they were told of. -/
theorem recent_emitAll (size : Int) (told : List Kept) (events : List Event) :
    let capacity := if 0 < size then size.toNat else 1024
    ((t.keeping size).emitAll told).recent =
        (if t.level = .off then [] else (told.rtake (min told.length capacity)).map t.shown) ∧
      ((t.keeping size).emitAll (events.map fun e => ⟨e, none⟩)).recent =
        if t.level = .off then [] else events.rtake (min events.length capacity) := by
  intro capacity
  have hcapacity : (Ring.ofSize size : Ring Kept).capacity = capacity := Array.size_replicate
  have hlatest (told : List Kept) : ((t.keeping size).emitAll told).recent =
      if t.level = .off then [] else (told.rtake (min told.length capacity)).map t.shown := by
    have hring : ((t.keeping size).emitAll told).ring =
        some (if t.level = .off then .ofSize size else (Ring.ofSize size).pushAll told) := by
      rw [emitAll_ring, keeping]
      split <;> rfl
    have hshown : ((t.keeping size).emitAll told).shown = t.shown := by
      have hspans := emitAll_spans (t.keeping size) told
      funext k
      rw [shown, shown, hspans, keeping]
    rw [recent_eq, hring, hshown, Option.elim_some]
    split
    · rfl
    · rw [Ring.toList_pushAll (Ring.sound_ofSize size), hcapacity, Ring.toList_ofSize,
        List.nil_append, rtake_min]
  refine ⟨hlatest told, ?_⟩
  rw [hlatest, List.length_map, List.rtake, List.length_map, ← List.map_drop, List.map_map]
  exact congrArg (ite _ _) (List.map_id _)

end Tracer

end Storyline.Trace
