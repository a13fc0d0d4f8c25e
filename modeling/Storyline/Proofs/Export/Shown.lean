import Mathlib.Data.List.Basic
import Storyline.Export.Compile
import Storyline.Proofs.Text.Lists
import Storyline.Proofs.Variables.Table

/-!
# What a compiled document shows of the variables

A compiled document shows, for each script in its texts, what the script assigns.  A header hidden
by a later one of the same name is left out, and its scripts with it.  So documents compiled with
different knowledge of the variables are equal exactly if they agree on the scripts that are shown
(`blocks_eq_iff`).

The table of variables shows kinds by their tags, so it does not depend on the numbers of objects.
-/

namespace Storyline.Export

open Markup

/-! ## Shown scripts -/

mutual

/-- Where the scripts in an inline element start. -/
def shownInline : Inline → List Nat
  | .script _ inner _ => [inner.start]
  | .join _ | .code .. => []
  | .styled _ parts _ _ _ => shownParts parts

/-- Where the scripts in the parts of a text start. -/
def shownParts : List (Bytes × Inline) → List Nat
  | [] => []
  | (_, e) :: rest => shownInline e ++ shownParts rest

end

/-- Whether a block is a header with a canonical name. -/
def isHeaderNamed (name : Bytes) : Block → Bool
  | .header h _ => Outline.canonical h.title = name
  | _ => false

mutual

/-- Where the shown scripts of a block start. -/
def shownBlock : Block → List Nat
  | .header _ children => shownHeaders children ++ shownOthers children
  | .paragraph p => shownParts p.text.parts
  | .code _ | .divert _ => []
  | .choices cs _ _ => shownChoices cs
  | .branch _ arms children => shownChoices arms ++ shownBlocks children

/-- Where the shown scripts of blocks start. -/
def shownBlocks : List Block → List Nat
  | [] => []
  | b :: bs => shownBlock b ++ shownBlocks bs

/-- Where the shown scripts of the headers among blocks start; of headers with the same name the
last one is shown. -/
def shownHeaders : List Block → List Nat
  | [] => []
  | .header h children :: bs =>
    (if bs.any (isHeaderNamed (Outline.canonical h.title)) then []
      else shownBlock (.header h children)) ++ shownHeaders bs
  | _ :: bs => shownHeaders bs

/-- Where the shown scripts of the blocks that are no headers start. -/
def shownOthers : List Block → List Nat
  | [] => []
  | .header .. :: bs => shownOthers bs
  | b :: bs => shownBlock b ++ shownOthers bs

/-- Where the shown scripts of a choice start. -/
def shownChoice : Choice → List Nat
  | .mk line children => shownParts line.text.parts ++ shownBlocks children

/-- Where the shown scripts of choices start. -/
def shownChoices : List Choice → List Nat
  | [] => []
  | c :: cs => shownChoice c ++ shownChoices cs

end

/-- Whether two kinds of knowledge of the variables show the same for some scripts. -/
def AgreeOn (a a' : Assigned) (starts : List Nat) : Prop :=
  ∀ n ∈ starts, scriptVariables (a n) = scriptVariables (a' n)

theorem agreeOn_nil (a a' : Assigned) : AgreeOn a a' [] := by
  intro n hn
  simp at hn

theorem agreeOn_append {a a' : Assigned} {ns ns' : List Nat} :
    AgreeOn a a' (ns ++ ns') ↔ AgreeOn a a' ns ∧ AgreeOn a a' ns' :=
  List.forall_mem_append

/-! ## Members by name -/

/-- Lists with the same keys, none of them twice, are equal if one is a rearrangement of the
other. -/
theorem eq_of_perm_of_keys {α : Type} : {ms ms' : List (Bytes × α)} →
    ms.map (·.1) = ms'.map (·.1) → (ms.map (·.1)).Nodup → ms.Perm ms' → ms = ms'
  | [], [], _, _, _ => rfl
  | [], _ :: _, hk, _, _ => by simp at hk
  | _ :: _, [], hk, _, _ => by simp at hk
  | m :: ms, m' :: ms', hk, hd, hp => by
    obtain ⟨hkey, hkeys⟩ := List.cons.inj hk
    obtain ⟨hnot, hd⟩ := List.nodup_cons.1 hd
    have hm : m = m' := by
      obtain rfl | hin := List.mem_cons.1 (hp.mem_iff.1 (List.mem_cons_self ..))
      · rfl
      · refine absurd ?_ hnot
        show m.1 ∈ ms.map (·.1)
        rw [hkeys]
        exact List.mem_map_of_mem hin
    subst hm
    rw [eq_of_perm_of_keys hkeys hd (List.perm_cons m |>.1 hp)]

theorem mem_keys_go {α : Type} {k : Bytes} : {ms : List (Bytes × α)} →
    k ∈ (lastByName.go ms).map (·.1) → k ∈ ms.map (·.1)
  | [], h => h
  | m :: ms, h => by
    unfold lastByName.go at h
    split at h
    · exact List.mem_cons_of_mem _ (mem_keys_go h)
    · obtain rfl | hin := List.mem_cons.1 h
      · exact List.mem_cons_self ..
      · exact List.mem_cons_of_mem _ (mem_keys_go hin)

theorem nodup_keys_go {α : Type} : (ms : List (Bytes × α)) →
    ((lastByName.go ms).map (·.1)).Nodup
  | [] => List.nodup_nil
  | m :: ms => by
    unfold lastByName.go
    split
    · exact nodup_keys_go ms
    · rename_i hany
      refine List.nodup_cons.2 ⟨fun hin => hany ?_, nodup_keys_go ms⟩
      obtain ⟨x, hx, hkey⟩ := List.mem_map.1 (mem_keys_go hin)
      exact List.any_eq_true.2 ⟨x, hx, decide_eq_true hkey⟩

theorem any_key {α : Type} (ms : List (Bytes × α)) (k : Bytes) :
    (ms.any fun m => m.1 = k) = (ms.map (·.1)).any fun x => x = k := by
  rw [List.any_map]
  rfl

theorem keys_go {α : Type} : {ms ms' : List (Bytes × α)} → ms.map (·.1) = ms'.map (·.1) →
    (lastByName.go ms).map (·.1) = (lastByName.go ms').map (·.1)
  | [], [], _ => rfl
  | [], _ :: _, h => by simp at h
  | _ :: _, [], h => by simp at h
  | m :: ms, m' :: ms', h => by
    obtain ⟨hkey, hkeys⟩ := List.cons.inj h
    have hkey : m.1 = m'.1 := hkey
    unfold lastByName.go
    rw [any_key ms, any_key ms', hkeys, hkey]
    split
    · exact keys_go hkeys
    · rw [List.map_cons, List.map_cons, hkey, keys_go hkeys]

/-- Sorting members by name loses nothing. -/
theorem lastByName_inj {α : Type} {ms ms' : List (Bytes × α)} (hk : ms.map (·.1) = ms'.map (·.1)) :
    lastByName ms = lastByName ms' ↔ lastByName.go ms = lastByName.go ms' := by
  constructor
  · intro h
    have hp : (lastByName.go ms).Perm (lastByName.go ms') :=
      (Bytes.sortOn_perm _ _).symm.trans ((List.Perm.of_eq h).trans (Bytes.sortOn_perm _ _))
    exact eq_of_perm_of_keys (keys_go hk) (nodup_keys_go ms) hp
  · intro h
    rw [lastByName, lastByName, h]

/-! ## Compiling the same document twice -/

theorem keys_headers (a : Assigned) : (bs : List Block) → (headers a bs).map (·.1)
    = bs.filterMap fun b => match b with
      | .header h _ => some (Outline.canonical h.title)
      | _ => none
  | [] => rfl
  | .header h children :: bs => by simp [headers, keys_headers a bs]
  | .paragraph _ :: bs | .code _ :: bs | .choices .. :: bs | .divert _ :: bs
  | .branch .. :: bs => by simp [headers, keys_headers a bs]

theorem any_headers (a : Assigned) (name : Bytes) : (bs : List Block) →
    ((headers a bs).any fun m => m.1 = name) = bs.any (isHeaderNamed name)
  | [] => rfl
  | .header h children :: bs => by simp [headers, isHeaderNamed, any_headers a name bs]
  | .paragraph _ :: bs | .code _ :: bs | .choices .. :: bs | .divert _ :: bs
  | .branch .. :: bs => by simp [headers, isHeaderNamed, any_headers a name bs]

section

variable {a a' : Assigned}

mutual

theorem inline_eq_iff : (e : Inline) → (inline a e = inline a' e ↔ AgreeOn a a' (shownInline e))
  | .script raw inner span => by simp [inline, Datum.ofFields, AgreeOn, shownInline]
  | .join span => by simp [inline, shownInline, agreeOn_nil]
  | .code raw inner span => by simp [inline, shownInline, agreeOn_nil]
  | .styled style parts tail inner span => by
    simp [inline, Datum.ofFields, textWith, shownInline, textParts_eq_iff parts]

theorem textParts_eq_iff : (ps : List (Bytes × Inline)) →
    (textParts a ps = textParts a' ps ↔ AgreeOn a a' (shownParts ps))
  | [] => by simp [textParts, shownParts, agreeOn_nil]
  | (before, e) :: rest => by
    simp [textParts, Datum.ofFields, shownParts, agreeOn_append, inline_eq_iff e,
      textParts_eq_iff rest]

end

mutual

theorem block_eq_iff : (b : Block) → (block a b = block a' b ↔ AgreeOn a a' (shownBlock b))
  | .header h children => by
    have hkeys : (headers a children).map (·.1) = (headers a' children).map (·.1) := by
      rw [keys_headers, keys_headers]
    simp [block, Datum.ofFields, shownBlock, agreeOn_append, lastByName_inj hkeys,
      headers_eq_iff children, others_eq_iff children]
  | .paragraph p => by simp [block, Datum.ofFields, shownBlock, textParts_eq_iff p.text.parts]
  | .code c => by simp [block, shownBlock, agreeOn_nil]
  | .choices cs as span => by simp [block, Datum.ofFields, shownBlock, choices_eq_iff cs]
  | .divert d => by simp [block, shownBlock, agreeOn_nil]
  | .branch m arms children => by
    simp [block, Datum.ofFields, shownBlock, agreeOn_append, choices_eq_iff arms,
      blocks_eq_iff children]

/-- Compiled blocks are equal exactly if the same is known of the scripts they show. -/
theorem blocks_eq_iff : (bs : List Block) →
    (blocks a bs = blocks a' bs ↔ AgreeOn a a' (shownBlocks bs))
  | [] => by simp [blocks, shownBlocks, agreeOn_nil]
  | b :: bs => by
    simp [blocks, shownBlocks, agreeOn_append, block_eq_iff b, blocks_eq_iff bs]

theorem headers_eq_iff : (bs : List Block) →
    (lastByName.go (headers a bs) = lastByName.go (headers a' bs)
      ↔ AgreeOn a a' (shownHeaders bs))
  | [] => by simp [headers, lastByName.go, shownHeaders, agreeOn_nil]
  | .header h children :: bs => by
    simp only [headers, lastByName.go, any_headers, shownHeaders, agreeOn_append]
    split
    · simp [agreeOn_nil, headers_eq_iff bs]
    · simp [headers_eq_iff bs, block_eq_iff (.header h children)]
  | .paragraph _ :: bs | .code _ :: bs | .choices .. :: bs | .divert _ :: bs
  | .branch .. :: bs => by simp [headers, shownHeaders, headers_eq_iff bs]

theorem others_eq_iff : (bs : List Block) →
    (others a bs = others a' bs ↔ AgreeOn a a' (shownOthers bs))
  | [] => by simp [others, shownOthers, agreeOn_nil]
  | .header .. :: bs => by simp [others, shownOthers, others_eq_iff bs]
  | .paragraph p :: bs => by
    simp [others, shownOthers, agreeOn_append, block_eq_iff (.paragraph p), others_eq_iff bs]
  | .code c :: bs => by
    simp [others, shownOthers, agreeOn_append, block_eq_iff (.code c), others_eq_iff bs]
  | .choices cs as span :: bs => by
    simp [others, shownOthers, agreeOn_append, block_eq_iff (.choices cs as span),
      others_eq_iff bs]
  | .divert d :: bs => by
    simp [others, shownOthers, agreeOn_append, block_eq_iff (.divert d), others_eq_iff bs]
  | .branch m arms children :: bs => by
    simp [others, shownOthers, agreeOn_append, block_eq_iff (.branch m arms children),
      others_eq_iff bs]

theorem choice_eq_iff : (c : Choice) → (choice a c = choice a' c ↔ AgreeOn a a' (shownChoice c))
  | .mk line children => by
    simp [choice, text, textWith, Datum.ofFields, shownChoice, agreeOn_append,
      textParts_eq_iff line.text.parts, blocks_eq_iff children]

theorem choices_eq_iff : (cs : List Choice) →
    (choices a cs = choices a' cs ↔ AgreeOn a a' (shownChoices cs))
  | [] => by simp [choices, shownChoices, agreeOn_nil]
  | c :: cs => by
    simp [choices, shownChoices, agreeOn_append, choice_eq_iff c, choices_eq_iff cs]

end

end

/-! ## The table of variables -/

mutual

theorem entry_shape : (e : Variables.Entry) → entry e.shape = entry e
  | ⟨name, kind, conflict, assignments, props⟩ => by
    simp [Variables.Entry.shape, entry, Variables.Kind.tag_shape, entries_shape props]

theorem entries_shape : (es : List Variables.Entry) → entries (Variables.Entry.shapeAll es) = entries es
  | [] => rfl
  | e :: es => by simp [Variables.Entry.shapeAll, entries, entry_shape e, entries_shape es]

end

end Storyline.Export
