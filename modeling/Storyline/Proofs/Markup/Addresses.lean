import Mathlib.Data.List.Induction
import Mathlib.Data.List.Nodup
import Storyline.Proofs.Markup.Agreement

/-!
# Addresses of blocks

An address leads from the blocks of a document to one of the blocks below them: it says which block
to go to first, which of the blocks below this one to go to next, and so on.  On the way the
innermost header around the place is known, since it is the last header that was passed
(`Block.visitAt?`).

A visit finds the block at every address and finds none twice: `Lists` says so of any list that is
to hold what a partial function finds.
-/

namespace Storyline.Markup

/-! ## Lists of what a function finds -/

/-- A list that holds, once for each of the places where a function finds something, what it finds
there; `places` are these places in the order of the list. -/
structure Lists {κ α : Type} (find : κ → Option α) (places : List κ) (xs : List α) : Prop where
  nodup : places.Nodup
  mem_places : ∀ a, a ∈ places ↔ (find a).isSome
  found : places.map find = xs.map some

namespace Lists

variable {κ α β : Type} {find : κ → Option α} {places : List κ} {xs : List α}

/-- Where nothing is left of what was found there is nothing to list. -/
theorem map_filter_isSome {xs : List α} (hfound : places.map find = xs.map some)
    (g : α → Option β) :
    (places.filter fun a => ((find a).bind g).isSome).map (fun a => (find a).bind g)
      = (xs.filterMap g).map some := by
  induction places generalizing xs with
  | nil =>
    obtain rfl := List.map_eq_nil_iff.mp hfound.symm
    rfl
  | cons a places ih =>
    cases xs with
    | nil => cases hfound
    | cons x xs =>
      obtain ⟨hx, hxs⟩ := List.cons.inj hfound
      have hhead : (find a).bind g = g x := by rw [hx, Option.bind_some]
      cases hg : g x with
      | none =>
        rw [List.filterMap_cons_none hg, List.filter_cons_of_neg (by simp [hhead, hg])]
        exact ih hxs
      | some y =>
        rw [List.filterMap_cons_some hg, List.filter_cons_of_pos (by simp [hhead, hg]),
          List.map_cons, List.map_cons, ih hxs, hhead, hg]

/-- What is found can be looked at further, and left out. -/
theorem filterMap (h : Lists find places xs) (g : α → Option β) :
    Lists (fun a => (find a).bind g) (places.filter fun a => ((find a).bind g).isSome)
      (xs.filterMap g) := by
  refine ⟨h.nodup.filter _, fun a => ?_, map_filter_isSome h.found g⟩
  rw [List.mem_filter, h.mem_places, and_iff_right_iff_imp]
  exact Option.isSome_of_isSome_bind

end Lists

/-! ## Blocks at addresses -/

/-- The block at an address below a block, with the innermost header around it. -/
def Block.visitAt? (owner : Option Heading) (b : Block) : List Nat → Option Visit
  | [] => some ⟨b, owner⟩
  | i :: address => b.children[i]?.bind fun c => c.visitAt? (b.heading?.or owner) address

/-- The block at an address that starts among some blocks, with the innermost header around it. -/
def visitAt? (owner : Option Heading) (bs : List Block) : List Nat → Option Visit
  | [] => none
  | i :: address => bs[i]?.bind fun b => b.visitAt? owner address

theorem sizeOf_lt_of_mem_choices {cs : List Choice} {b : Block}
    (h : b ∈ cs.flatMap Choice.children) : sizeOf b < sizeOf cs := by
  obtain ⟨⟨line, children⟩, hc, hb⟩ := List.mem_flatMap.mp h
  have hchoice := List.sizeOf_lt_of_mem hc
  have hblock := List.sizeOf_lt_of_mem (show b ∈ children from hb)
  simp only [Choice.mk.sizeOf_spec] at hchoice
  omega

theorem sizeOf_lt_of_mem_children {b c : Block} (h : c ∈ b.children) : sizeOf c < sizeOf b := by
  cases b with
  | header heading children =>
    have hblock := List.sizeOf_lt_of_mem (show c ∈ children from h)
    simp only [Block.header.sizeOf_spec]
    omega
  | choices cs as span =>
    have hblock := sizeOf_lt_of_mem_choices h
    simp only [Block.choices.sizeOf_spec]
    omega
  | branch line arms children =>
    simp only [Block.branch.sizeOf_spec]
    rcases List.mem_append.mp h with h | h
    · have hblock := sizeOf_lt_of_mem_choices h
      omega
    · have hblock := List.sizeOf_lt_of_mem h
      omega
  | paragraph | code | divert => cases h

/-- What holds of a block whenever it holds of all blocks right below it holds of every block. -/
theorem Block.induction {P : Block → Prop} (step : ∀ b : Block, (∀ c ∈ b.children, P c) → P b)
    (b : Block) : P b :=
  step b fun c _ => Block.induction step c
termination_by sizeOf b
decreasing_by exact sizeOf_lt_of_mem_children ‹_›

/-- Blocks in a row can be taken one by one, each together with the blocks right below it. -/
theorem blocks_induction {P : List Block → Prop} (nil : P [])
    (cons : ∀ (b : Block) (bs : List Block), P b.children → P bs → P (b :: bs))
    (bs : List Block) : P bs := by
  have row (bs : List Block) (h : ∀ b ∈ bs, P b.children) : P bs := by
    induction bs with
    | nil => exact nil
    | cons b bs ih =>
      obtain ⟨hb, hbs⟩ := List.forall_mem_cons.mp h
      exact cons b bs hb (ih hbs)
  exact row bs fun b _ => Block.induction (P := fun b => P b.children) (fun b => row b.children) b

/-- The visits of blocks in a row: addresses among the blocks in front stay, those below the last
block start with its number. -/
theorem exists_lists_visitBlocks {owner : Option Heading} {bs : List Block}
    (h : ∀ b ∈ bs, ∃ places, Lists (b.visitAt? owner) places (visitBlock owner b)) :
    ∃ places, Lists (visitAt? owner bs) places (visitBlocks owner bs) := by
  -- By induction from the end, where a block can be added without moving the addresses of those
  -- before it.
  induction bs using List.reverseRecOn with
  | nil =>
    refine ⟨[], .nil, fun a => ?_, rfl⟩
    cases a <;> simp [visitAt?]
  | append_singleton bs b ih =>
    obtain ⟨front, hfront⟩ := ih fun c hc => h c (List.mem_append_left _ hc)
    obtain ⟨last, hlast⟩ := h b (by simp)
    have hbelow (address : List Nat) :
        visitAt? owner (bs ++ [b]) (bs.length :: address) = b.visitAt? owner address := by
      simp [visitAt?]
    -- an address that led somewhere leads to the same block when more blocks follow
    have hstays {a : List Nat} (ha : (visitAt? owner bs a).isSome) :
        visitAt? owner (bs ++ [b]) a = visitAt? owner bs a := by
      cases a with
      | nil => rfl
      | cons i address =>
        have hi : i < bs.length := by
          by_contra hi
          simp [visitAt?, List.getElem?_eq_none (Nat.le_of_not_lt hi)] at ha
        rw [visitAt?, visitAt?, List.getElem?_append_left hi]
    refine ⟨front ++ last.map (bs.length :: ·), ?_, fun a => ?_, ?_⟩
    -- an address below the last block leads nowhere among the blocks before it
    · refine hfront.nodup.append (hlast.nodup.map List.cons_injective) fun a ha hb => ?_
      obtain ⟨address, -, rfl⟩ := List.mem_map.mp hb
      have hsome := (hfront.mem_places _).mp ha
      simp [visitAt?] at hsome
    · rw [List.mem_append, hfront.mem_places, List.mem_map]
      constructor
      · rintro (ha | ⟨address, haddress, rfl⟩)
        · rwa [hstays ha]
        · rwa [hbelow, ← hlast.mem_places]
      · intro ha
        cases a with
        | nil => cases ha
        | cons i address =>
          -- below an earlier block, below the last one, or behind all of them
          rcases Nat.lt_trichotomy i bs.length with hi | rfl | hi
          · rw [visitAt?, List.getElem?_append_left hi] at ha
            exact .inl ha
          · rw [hbelow, ← hlast.mem_places] at ha
            exact .inr ⟨address, ha, rfl⟩
          · have hlength : (bs ++ [b]).length ≤ i := by
              rw [List.length_append]
              exact hi
            rw [visitAt?, List.getElem?_eq_none hlength] at ha
            cases ha
    · have hmap : front.map (visitAt? owner (bs ++ [b])) = front.map (visitAt? owner bs) :=
        List.map_congr_left fun a ha => hstays ((hfront.mem_places a).mp ha)
      have hcons : visitAt? owner (bs ++ [b]) ∘ (bs.length :: ·) = b.visitAt? owner :=
        funext hbelow
      rw [List.map_append, List.map_map, hmap, hcons, hfront.found, hlast.found,
        visitBlocks_append, List.map_append]
      simp [visitBlocks]

/-- The visit of a block finds the block at each address below it once. -/
theorem exists_lists_visitBlock (b : Block) :
    ∀ owner, ∃ places, Lists (b.visitAt? owner) places (visitBlock owner b) := by
  induction b using Block.induction with
  | step b ih =>
    intro owner
    obtain ⟨below, hbelow⟩ := exists_lists_visitBlocks fun c hc => ih c hc (b.heading?.or owner)
    have hfind (i : Nat) (address : List Nat) : b.visitAt? owner (i :: address)
        = visitAt? (b.heading?.or owner) b.children (i :: address) := rfl
    have hnil : [] ∉ below := by
      rw [hbelow.mem_places]
      exact Bool.false_ne_true
    refine ⟨[] :: below, List.nodup_cons.mpr ⟨hnil, hbelow.nodup⟩, fun a => ?_, ?_⟩
    · cases a with
      | nil => simp [Block.visitAt?]
      | cons i address => simp [hfind, hbelow.mem_places]
    · have hmap : below.map (b.visitAt? owner)
          = below.map (visitAt? (b.heading?.or owner) b.children) := by
        refine List.map_congr_left fun a ha => ?_
        cases a with
        | nil => exact absurd ha hnil
        | cons i address => exact hfind i address
      rw [List.map_cons, hmap, hbelow.found, visitBlock_eq, List.map_cons]
      rfl

/-! ## Documents -/

namespace Document

/-- The block at an address of a document, with the innermost header around it. -/
def visitAt? (d : Document) : List Nat → Option Visit := Markup.visitAt? none d.blocks

/-- Every block of a document is visited once. -/
theorem exists_lists_visits (d : Document) : ∃ places, Lists d.visitAt? places d.visits :=
  exists_lists_visitBlocks fun b _ => exists_lists_visitBlock b none

end Document

end Storyline.Markup
