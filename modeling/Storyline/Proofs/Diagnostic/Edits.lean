import Mathlib.Data.List.Pairwise
import Storyline.Diagnostic.Repair
import Storyline.Proofs.Source.Bounds

/-!
# Making edits

What it means to replace the text under spans is said byte by byte: `replaced` gives at each place
the texts of the edits that start there, and the byte of the content unless an edit covers it.
Edits that lie in the content and are apart from each other are made in one pass from front to back
(`Edit.applyAll`).  In order they leave room for every part that is copied (`inOrder_sorted`), the
pass gives the replaced text (`applyAll_eq_replaced`), and so does making the edits one at a time,
the one that starts last first (`applyAll_eq_madeBackwards`).
-/

namespace Storyline

namespace Edit

/-! ## Edits that do not meet -/

/-- Two edits start at different places and share no byte: one stops before the other starts. -/
structure Apart (e f : Edit) : Prop where
  starts : e.span.start ≠ f.span.start
  disjoint : e.span.stop ≤ f.span.start ∨ f.span.stop ≤ e.span.start

theorem Apart.symm {e f : Edit} (h : e.Apart f) : f.Apart e := ⟨h.starts.symm, h.disjoint.symm⟩

instance : Std.Symm Apart := ⟨fun _ _ h => h.symm⟩

theorem overlaps_eq_false_iff {e f : Edit} : e.overlaps f = false ↔ e.Apart f := by
  simp only [overlaps, Bool.or_eq_false_iff, Bool.and_eq_false_iff, decide_eq_false_iff_not,
    Nat.not_lt]
  exact ⟨fun h => ⟨h.1, h.2.symm⟩, fun h => ⟨h.starts, h.disjoint.symm⟩⟩

-- What is inserted where another edit stops is apart from it; where it starts, it is not.
example : overlaps ⟨⟨0, 2, 5⟩, []⟩ ⟨⟨0, 5, 5⟩, []⟩ = false ∧
    overlaps ⟨⟨0, 2, 5⟩, []⟩ ⟨⟨0, 2, 2⟩, []⟩ = true := by decide

/-- An edit that lies in a content of some size. -/
def Fits (size : Nat) (e : Edit) : Prop := e.span.start ≤ e.span.stop ∧ e.span.stop ≤ size

/-- Edits in order from an offset on: each starts where the one before has stopped, or later, and
after the last one there is nothing missing of the content. -/
def InOrder (size : Nat) : (offset : Nat) → List Edit → Prop
  | offset, [] => offset ≤ size
  | offset, e :: es => offset ≤ e.span.start ∧ e.span.start ≤ e.span.stop ∧
      InOrder size e.span.stop es

/-- Edits by increasing start. -/
def sorted (es : List Edit) : List Edit := es.mergeSort fun e f => e.span.start ≤ f.span.start

section Order

variable {size offset : Nat} {es : List Edit}

theorem InOrder.le_size (h : InOrder size offset es) : offset ≤ size := by
  induction es generalizing offset with
  | nil => exact h
  | cons e es ih => exact Nat.le_trans h.1 (Nat.le_trans h.2.1 (ih h.2.2))

theorem InOrder.le_start (h : InOrder size offset es) {e : Edit} (he : e ∈ es) :
    offset ≤ e.span.start := by
  induction es generalizing offset with
  | nil => cases he
  | cons f es ih =>
    rcases List.mem_cons.mp he with rfl | he
    · exact h.1
    · exact Nat.le_trans h.1 (Nat.le_trans h.2.1 (ih h.2.2 he))

theorem sorted_perm (es : List Edit) : (sorted es).Perm es := List.mergeSort_perm _ _

theorem pairwise_sorted (es : List Edit) :
    (sorted es).Pairwise fun e f => e.span.start ≤ f.span.start := by
  refine (List.pairwise_mergeSort (fun a b c => ?_) (fun a b => ?_) es).imp of_decide_eq_true
  · simpa using Nat.le_trans
  · simpa using Nat.le_total _ _

theorem inOrder_of_pairwise (hin : ∀ e ∈ es, e.Fits size) (hoffset : offset ≤ size)
    (hfrom : ∀ e ∈ es, offset ≤ e.span.start)
    (h : es.Pairwise fun e f => e.span.stop ≤ f.span.start) : InOrder size offset es := by
  induction h generalizing offset with
  | nil => exact hoffset
  | @cons e es hall _ ih =>
    obtain ⟨he, hes⟩ := List.forall_mem_cons.mp hin
    exact ⟨hfrom e List.mem_cons_self, he.1, ih hes he.2 hall⟩

/-- Edits in a content that are apart from each other are in order once they are sorted. -/
theorem inOrder_sorted (hin : ∀ e ∈ es, e.Fits size) (happart : es.Pairwise Apart) :
    InOrder size 0 (sorted es) := by
  have hmem {e : Edit} : e ∈ sorted es → e ∈ es := (sorted_perm es).mem_iff.mp
  have happart := happart.perm (sorted_perm es).symm Apart.symm
  refine inOrder_of_pairwise (fun e he => hin e (hmem he)) (Nat.zero_le _)
    (fun _ _ => Nat.zero_le _) (((pairwise_sorted es).and happart).imp_of_mem ?_)
  rintro e f - hf ⟨hle, hapart⟩
  have hlt := Nat.lt_of_le_of_ne hle hapart.starts
  have := (hin f (hmem hf)).1
  rcases hapart.disjoint with h | h <;> omega

end Order

/-! ## One after the other -/

/-- A text with one edit made. -/
def make (text : Bytes) (e : Edit) : Bytes :=
  text.take e.span.start ++ e.text ++ text.drop e.span.stop

/-- A text with edits made one at a time, from the one that starts last to the one that starts
first, so that the spans of those still to be made stay where they are. -/
def madeBackwards (text : Bytes) (es : List Edit) : Bytes :=
  (es.mergeSort fun e f => f.span.start ≤ e.span.start).foldl make text

variable (content : Content) {offset : Nat} {es : List Edit}

theorem slice_zero_size : content.slice 0 content.size = content.toList := by
  simp [Content.slice]

/-- Edits in order, the last one made first. -/
theorem foldr_make (h : InOrder content.size offset es) :
    es.foldr (fun e text => make text e) content.toList
      = content.slice 0 offset ++ apply content offset es := by
  induction es generalizing offset with
  | nil =>
    rw [List.foldr_nil, apply, content.slice_append (Nat.zero_le _) h, slice_zero_size]
  | cons e es ih =>
    obtain ⟨hoffset, hspan, hrest⟩ := h
    have hstop := hrest.le_size
    have hcut : content.slice 0 e.span.stop
        = content.slice 0 e.span.start ++ content.slice e.span.start e.span.stop :=
      (content.slice_append (Nat.zero_le _) hspan).symm
    have hlength (i : Nat) (hi : i ≤ content.size) : (content.slice 0 i).length = i := by
      rw [content.length_slice, Nat.min_eq_left hi, Nat.sub_zero]
    rw [List.foldr_cons, ih hrest, make, List.drop_left' (hlength _ hstop), hcut,
      List.append_assoc (content.slice 0 e.span.start),
      List.take_left' (hlength _ (Nat.le_trans hspan hstop)), apply,
      ← content.slice_append (Nat.zero_le _) hoffset]
    simp only [List.append_assoc]

/-- Sorting by falling start is sorting by increasing start, backwards, if the starts differ. -/
theorem mergeSort_falling (happart : es.Pairwise Apart) :
    (es.mergeSort fun e f => f.span.start ≤ e.span.start) = (sorted es).reverse := by
  have hfalling : (es.mergeSort fun e f => f.span.start ≤ e.span.start).Pairwise
      fun e f => f.span.start ≤ e.span.start := by
    refine (List.pairwise_mergeSort (fun a b c => ?_) (fun a b => ?_) es).imp of_decide_eq_true
    · simpa using fun h h' => Nat.le_trans h' h
    · simpa using Nat.le_total _ _
  have hperm : (es.mergeSort fun e f => f.span.start ≤ e.span.start).Perm es :=
    List.mergeSort_perm _ _
  refine List.Perm.eq_of_pairwise (fun e f he hf hef hfe => ?_) hfalling
    (List.pairwise_reverse.mpr (pairwise_sorted es))
    (hperm.trans ((sorted_perm es).symm.trans (List.reverse_perm _).symm))
  have he := hperm.mem_iff.mp he
  have hf := (sorted_perm es).mem_iff.mp (List.mem_reverse.mp hf)
  by_contra hne
  exact (happart.forall he hf hne).starts (Nat.le_antisymm hfe hef)

/-- The pass from front to back gives what making the edits from the last to the first gives. -/
theorem applyAll_eq_madeBackwards (hin : ∀ e ∈ es, e.Fits content.size)
    (happart : es.Pairwise Apart) :
    applyAll content es = madeBackwards content.toList es := by
  rw [madeBackwards, mergeSort_falling happart, List.foldl_reverse,
    foldr_make content (inOrder_sorted hin happart), content.slice_self, List.nil_append]
  rfl

/-! ## Byte by byte -/

/-- What stands at a place of a content in which edits are made: the texts of the edits that start
there, and the byte of the content unless one of them covers it. -/
def piece (es : List Edit) (i : Nat) : Bytes :=
  (es.filter (·.span.start = i)).flatMap (·.text)
    ++ if es.any fun e => e.span.start ≤ i && i < e.span.stop then [] else content[i]?.toList

/-- A content with the text under the span of each edit replaced by the text of the edit. -/
def replaced (es : List Edit) : Bytes :=
  (List.range (content.size + 1)).flatMap (piece content es)

/-- In front of all edits the bytes stay. -/
theorem piece_of_lt {i : Nat} (h : ∀ e ∈ es, i < e.span.start) :
    piece content es i = content[i]?.toList := by
  have hnone : es.filter (·.span.start = i) = [] :=
    List.filter_eq_nil_iff.mpr fun e he => by simpa using (Nat.ne_of_lt (h e he)).symm
  have hfree : es.any (fun e => e.span.start ≤ i && i < e.span.stop) = false :=
    List.any_eq_false.mpr fun e he => by
      have := h e he
      simp only [Bool.and_eq_true, decide_eq_true_eq]
      omega
  rw [piece, hnone, hfree]
  rfl

/-- Behind the first edit the others decide. -/
theorem piece_cons_of_le {e : Edit} {i : Nat} (h : e.span.stop ≤ i) :
    piece content (e :: es) i
      = (if e.span.start = i then e.text else []) ++ piece content es i := by
  have hcover : decide (i < e.span.stop) = false := by simpa using h
  rw [piece, piece, List.any_cons, hcover, Bool.and_false, Bool.false_or, List.filter_cons]
  by_cases hstart : e.span.start = i
  · simp [hstart]
  · simp [hstart]

/-- What the first edit covers gives way to its text. -/
theorem piece_cons_of_lt {e : Edit} {i : Nat} (hstart : e.span.start ≤ i) (hstop : i < e.span.stop)
    (h : ∀ f ∈ es, e.span.stop ≤ f.span.start) :
    piece content (e :: es) i = if e.span.start = i then e.text else [] := by
  have hnone : es.filter (·.span.start = i) = [] :=
    List.filter_eq_nil_iff.mpr fun f hf => by
      have := h f hf
      simp only [decide_eq_true_eq]
      omega
  rw [piece, List.any_cons, decide_eq_true hstart, decide_eq_true hstop, List.filter_cons, hnone]
  by_cases hhere : e.span.start = i
  · simp [hhere]
  · simp [hhere]

/-- The places up to one in between, and those from there on. -/
theorem range'_append_of_le {i j k : Nat} (hij : i ≤ j) (hjk : j ≤ k) :
    List.range' i (j - i) ++ List.range' j (k - j) = List.range' i (k - i) := by
  have happend := List.range'_append_1 (s := i) (m := j - i) (n := k - j)
  rwa [show i + (j - i) = j by omega, show j - i + (k - j) = k - i by omega] at happend

/-- The bytes between two places. -/
theorem flatMap_byte (i : Nat) {j : Nat} (h : j ≤ content.size) :
    (List.range' i (j - i)).flatMap (fun k => content[k]?.toList) = content.slice i j := by
  generalize hn : j - i = n
  induction n generalizing i with
  | zero =>
    exact (List.eq_nil_of_length_eq_zero (by rw [content.length_slice]; omega)).symm
  | succ n ih =>
    have hi : i < content.size := by omega
    have hcons : content.slice i j = content.getD i 0 :: content.slice (i + 1) j :=
      content.slice_eq_cons (by omega) h
    rw [List.range'_succ, List.flatMap_cons, ih (i + 1) (by omega), hcons,
      Array.getD_eq_getD_getElem?, Array.getElem?_eq_getElem hi]
    rfl

/-- The pieces from the start of the first edit on: its text, and the pieces of the others from
where it stops. -/
theorem flatMap_piece_cons {e : Edit} (hspan : e.span.start ≤ e.span.stop)
    (hrest : InOrder content.size e.span.stop es) :
    (List.range' e.span.start (content.size + 1 - e.span.start)).flatMap (piece content (e :: es))
      = e.text ++ (List.range' e.span.stop (content.size + 1 - e.span.stop)).flatMap
          (piece content es) := by
  have hstop := hrest.le_size
  -- behind the edit only the others have a say
  have hbehind (i : Nat) (hi : e.span.stop ≤ i) (hne : e.span.start ≠ i) :
      piece content (e :: es) i = piece content es i := by
    rw [piece_cons_of_le content hi, if_neg hne, List.nil_append]
  rcases Nat.lt_or_eq_of_le hspan with hlt | heq
  · -- the text stands at the first byte, the others that are covered give nothing
    have hsplit : List.range' e.span.start (content.size + 1 - e.span.start)
        = e.span.start :: (List.range' (e.span.start + 1) (e.span.stop - (e.span.start + 1))
          ++ List.range' e.span.stop (content.size + 1 - e.span.stop)) := by
      have hnext : e.span.start + 1 ≤ e.span.stop := hlt
      rw [range'_append_of_le hnext (by omega), ← List.range'_succ]
      congr 1
      omega
    have hcovered : (List.range' (e.span.start + 1) (e.span.stop - (e.span.start + 1))).flatMap
        (piece content (e :: es)) = [] := by
      rw [List.flatMap_eq_nil_iff]
      intro i hi
      rw [List.mem_range'_1] at hi
      rw [piece_cons_of_lt content (by omega) (by omega) fun f => hrest.le_start,
        if_neg (by omega)]
    rw [hsplit, List.flatMap_cons, List.flatMap_append, hcovered, List.nil_append,
      piece_cons_of_lt content (Nat.le_refl _) hlt fun f => hrest.le_start, if_pos rfl]
    congr 1
    refine List.flatMap_congr fun i hi => ?_
    rw [List.mem_range'_1] at hi
    exact hbehind i hi.1 (by omega)
  · -- nothing is covered: the text stands in front of the byte at its place
    rw [heq, show content.size + 1 - e.span.stop = content.size - e.span.stop + 1 by omega,
      List.range'_succ, List.flatMap_cons, List.flatMap_cons,
      piece_cons_of_le content (Nat.le_refl _), if_pos heq, List.append_assoc]
    congr 2
    refine List.flatMap_congr fun i hi => ?_
    rw [List.mem_range'_1] at hi
    exact hbehind i (by omega) (by omega)

/-- The pass over edits in order gives the pieces. -/
theorem apply_eq_flatMap_piece (h : InOrder content.size offset es) :
    apply content offset es
      = (List.range' offset (content.size + 1 - offset)).flatMap (piece content es) := by
  have hfront {es : List Edit} {offset j : Nat} (hj : j ≤ content.size)
      (hlt : ∀ e ∈ es, j ≤ e.span.start) : (List.range' offset (j - offset)).flatMap
        (piece content es) = content.slice offset j := by
    rw [← flatMap_byte content offset hj]
    refine List.flatMap_congr fun i hi => piece_of_lt content fun e he => ?_
    rw [List.mem_range'_1] at hi
    have := hlt e he
    omega
  induction es generalizing offset with
  | nil =>
    have hoffset : offset ≤ content.size := h
    rw [apply, ← range'_append_of_le hoffset (Nat.le_add_right _ 1), List.flatMap_append,
      hfront (Nat.le_refl _) (List.forall_mem_nil _), Nat.add_sub_cancel_left]
    simp [piece]
  | cons e es ih =>
    obtain ⟨hoffset, hspan, hrest⟩ := h
    have hsize := hrest.le_size
    have hstarts : ∀ f ∈ e :: es, e.span.start ≤ f.span.start :=
      List.forall_mem_cons.mpr ⟨Nat.le_refl _, fun f hf => Nat.le_trans hspan (hrest.le_start hf)⟩
    rw [apply, ih hrest, ← range'_append_of_le hoffset (by omega), List.flatMap_append,
      flatMap_piece_cons content hspan hrest, hfront (Nat.le_trans hspan hsize) hstarts,
      List.append_assoc]

/-- The order of edits that start at different places makes no difference. -/
theorem piece_perm {es' : List Edit} (happart : es.Pairwise Apart) (h : es.Perm es') :
    piece content es = piece content es' := by
  funext i
  -- at most one of the edits starts here
  have hsame : es.filter (·.span.start = i) = es'.filter (·.span.start = i) := by
    have hfree (l : List Edit) : l.Pairwise fun _ _ => True :=
      List.pairwise_of_forall fun _ _ => trivial
    refine List.Perm.eq_of_pairwise (fun e f he hf _ _ => ?_) (hfree _) (hfree _) (h.filter _)
    obtain ⟨he, hestart⟩ := List.mem_filter.mp he
    obtain ⟨hf, hfstart⟩ := List.mem_filter.mp hf
    by_contra hne
    exact (happart.forall he (h.mem_iff.mpr hf) hne).starts
      ((of_decide_eq_true hestart).trans (of_decide_eq_true hfstart).symm)
  rw [piece, piece, hsame, h.any_eq]

/-- The pass from front to back replaces the text under each span. -/
theorem applyAll_eq_replaced (hin : ∀ e ∈ es, e.Fits content.size) (happart : es.Pairwise Apart) :
    applyAll content es = replaced content es := by
  rw [replaced, piece_perm content happart (sorted_perm es).symm, List.range_eq_range',
    ← Nat.sub_zero (content.size + 1),
    ← apply_eq_flatMap_piece content (inOrder_sorted hin happart)]
  rfl

end Edit

end Storyline
