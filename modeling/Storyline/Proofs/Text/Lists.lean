import Mathlib.Data.List.Basic
import Storyline.Text.Bytes

/-!
# Lists of texts

Listings and tables are sorted by name.  Sorting keeps what is in a list and puts it in order, and a
list of different names has only one order.

Texts are joined with a separator between neighbours, and split at every separator.  If the
separator is one byte that none of the texts holds, splitting gives them back (`splitOnByte_join`).
-/

namespace Storyline.Bytes

/-! ## Sorting -/

theorem notAfter_iff {a b : Bytes} : notAfter a b = true ↔ a ≤ b := decide_eq_true_iff

theorem notAfter_trans (a b c : Bytes) (h : notAfter a b = true) (h' : notAfter b c = true) :
    notAfter a c = true :=
  notAfter_iff.2 (List.le_trans (notAfter_iff.1 h) (notAfter_iff.1 h'))

theorem notAfter_total (a b : Bytes) : (notAfter a b || notAfter b a) = true := by
  rw [Bool.or_eq_true, notAfter_iff, notAfter_iff]
  exact List.le_total a b

variable {α : Type} (key : α → Bytes)

theorem sortOn_perm (xs : List α) : (sortOn key xs).Perm xs := List.mergeSort_perm _ _

@[simp] theorem mem_sortOn {key : α → Bytes} {xs : List α} {x : α} :
    x ∈ sortOn key xs ↔ x ∈ xs :=
  (sortOn_perm key xs).mem_iff

theorem pairwise_sortOn (xs : List α) : (sortOn key xs).Pairwise fun a b => key a ≤ key b :=
  (List.pairwise_mergeSort (fun a b c => notAfter_trans (key a) (key b) (key c))
    (fun a b => notAfter_total (key a) (key b)) xs).imp notAfter_iff.1

theorem sortOn_of_pairwise {key : α → Bytes} {xs : List α}
    (h : xs.Pairwise fun a b => key a ≤ key b) : sortOn key xs = xs :=
  List.mergeSort_of_pairwise (h.imp notAfter_iff.2)

/-- Names in order, none of them twice, are known from which names they are. -/
theorem names_eq {ns ns' : List Bytes} (h : ns.Pairwise (· ≤ ·)) (h' : ns'.Pairwise (· ≤ ·))
    (hd : ns.Nodup) (hd' : ns'.Nodup) (hmem : ∀ n, n ∈ ns ↔ n ∈ ns') : ns = ns' := by
  refine List.Perm.eq_of_pairwise (fun a b _ _ hab hba => ?_) h h'
    ((List.perm_ext_iff_of_nodup hd hd').2 hmem)
  exact List.le_antisymm hab hba

/-! ## Splitting -/

variable {sep : UInt8}

theorem splitOnByte_cons (sep b : UInt8) (s : Bytes) :
    splitOnByte sep (b :: s) = if b = sep then [] :: splitOnByte sep s
      else (b :: (splitOnByte sep s).headD []) :: (splitOnByte sep s).tail := rfl

theorem splitOnByte_ne_nil (sep : UInt8) (s : Bytes) : splitOnByte sep s ≠ [] := by
  cases s with
  | nil => simp [splitOnByte]
  | cons b s =>
    rw [splitOnByte_cons]
    split <;> simp

theorem splitOnByte_append (p t : Bytes) :
    splitOnByte sep (p ++ sep :: t) = splitOnByte sep p ++ splitOnByte sep t := by
  induction p with
  | nil => simp [splitOnByte]
  | cons b p ih =>
    rw [List.cons_append, splitOnByte_cons, splitOnByte_cons, ih]
    obtain ⟨x, xs, hx⟩ := List.exists_cons_of_ne_nil (splitOnByte_ne_nil sep p)
    rw [hx]
    split <;> simp

theorem splitOnByte_of_not_mem {s : Bytes} (h : sep ∉ s) : splitOnByte sep s = [s] := by
  induction s with
  | nil => rfl
  | cons b s ih =>
    rw [List.mem_cons, not_or] at h
    obtain ⟨hb, hs⟩ := h
    rw [splitOnByte_cons, if_neg (Ne.symm hb), ih hs]
    rfl

theorem mem_of_mem_splitOnByte {s piece : Bytes} (h : piece ∈ splitOnByte sep s) :
    ∀ b ∈ piece, b ∈ s ∧ b ≠ sep := by
  induction s generalizing piece with
  | nil =>
    obtain rfl : piece = [] := by simpa [splitOnByte] using h
    simp
  | cons c s ih =>
    have hrest {q : Bytes} (hq : q ∈ splitOnByte sep s) : ∀ b ∈ q, b ∈ c :: s ∧ b ≠ sep :=
      fun b hb => (ih hq b hb).imp_left (List.mem_cons_of_mem _)
    rw [splitOnByte_cons] at h
    split at h
    · rcases List.mem_cons.mp h with rfl | h
      · simp
      · exact hrest h
    · next hc =>
      obtain ⟨x, xs, hx⟩ := List.exists_cons_of_ne_nil (splitOnByte_ne_nil sep s)
      rw [hx] at h hrest
      rcases List.mem_cons.mp h with rfl | h
      · intro b hb
        rcases List.mem_cons.mp hb with rfl | hb
        · exact ⟨List.mem_cons_self, hc⟩
        · exact hrest List.mem_cons_self b hb
      · exact hrest (List.mem_cons_of_mem _ h)

/-- The last piece of a text that does not end in the separator ends as the text does. -/
theorem getLastD_splitOnByte {b : UInt8} (hb : b ≠ sep) (s : Bytes) :
    ∃ front, (splitOnByte sep (s ++ [b])).getLastD [] = front ++ [b] := by
  induction s with
  | nil => exact ⟨[], by simp [splitOnByte, hb]⟩
  | cons c s ih =>
    obtain ⟨front, hfront⟩ := ih
    obtain ⟨x, xs, hx⟩ := List.exists_cons_of_ne_nil (splitOnByte_ne_nil sep (s ++ [b]))
    rw [hx] at hfront
    rw [List.cons_append, splitOnByte_cons, hx]
    split
    · exact ⟨front, by simpa using hfront⟩
    · cases xs with
      | nil =>
        obtain rfl : x = front ++ [b] := by simpa using hfront
        exact ⟨c :: front, rfl⟩
      | cons y ys => exact ⟨front, by simpa using hfront⟩

/-! ## Joining -/

theorem join_cons (sep s : Bytes) (rest : List Bytes) :
    join sep (s :: rest) = s ++ rest.flatMap (sep ++ ·) := by
  cases rest with
  | nil => simp [join]
  | cons _ _ => rfl

theorem join_append (sep : Bytes) {ns : List Bytes} (hne : ns ≠ []) (more : List Bytes) :
    join sep (ns ++ more) = join sep ns ++ more.flatMap (sep ++ ·) := by
  obtain ⟨n, ns, rfl⟩ := List.exists_cons_of_ne_nil hne
  rw [List.cons_append, join_cons, join_cons, List.flatMap_append, List.append_assoc]

theorem join_concat (sep : Bytes) {ns : List Bytes} (hne : ns ≠ []) (n : Bytes) :
    join sep (ns ++ [n]) = join sep ns ++ sep ++ n := by
  rw [join_append sep hne, List.flatMap_singleton, List.append_assoc]

theorem join_cons_of_ne_nil (sep s : Bytes) {rest : List Bytes} (hne : rest ≠ []) :
    join sep (s :: rest) = s ++ sep ++ join sep rest := by
  obtain ⟨n, ns, rfl⟩ := List.exists_cons_of_ne_nil hne
  rw [join_cons, join_cons, List.flatMap_cons, List.append_assoc, List.append_assoc]

/-- Texts without the byte that stands between them are known from what they are joined to. -/
theorem splitOnByte_join {ns : List Bytes} (hne : ns ≠ []) (h : ∀ n ∈ ns, sep ∉ n) :
    splitOnByte sep (join [sep] ns) = ns := by
  induction ns with
  | nil => exact absurd rfl hne
  | cons n ns ih =>
    obtain ⟨hn, hns⟩ := List.forall_mem_cons.mp h
    by_cases hnil : ns = []
    · subst hnil
      exact splitOnByte_of_not_mem hn
    · rw [join_cons_of_ne_nil _ _ hnil, List.append_assoc, List.singleton_append,
        splitOnByte_append, splitOnByte_of_not_mem hn, ih hnil hns]
      rfl

/-! ## Replacing -/

theorem replaceByte_of_not_mem {old : UInt8} {new s : Bytes} (h : old ∉ s) :
    replaceByte old new s = s := by
  induction s with
  | nil => rfl
  | cons b s ih =>
    rw [List.mem_cons, not_or] at h
    obtain ⟨hb, hs⟩ := h
    have hih := ih hs
    rw [replaceByte] at hih ⊢
    rw [List.flatMap_cons, hih, if_neg (Ne.symm hb)]
    rfl

end Storyline.Bytes
