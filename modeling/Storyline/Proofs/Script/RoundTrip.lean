import Mathlib.Data.List.Basic
import Storyline.Export.Program
import Storyline.Proofs.Script.Separation

/-!
# Printing and reading again

A script that is read without a report, printed and read again, gives the same trees exactly if
these are separable.
-/

namespace Storyline.Script

/-! ## Tokens that are no separators -/

/-- Tokens without commas, semicolons and the texts of templates. -/
def signs (ts : List Form) : List Form :=
  (ts.map Form.blank).filter fun f => f.kind != .symbol .semicolon && f.kind != .symbol .comma

theorem signs_append (ts us : List Form) : signs (ts ++ us) = signs ts ++ signs us := by
  simp [signs]

theorem signs_cons {f : Form} (h : f.Stays) (ts : List Form) :
    signs (f :: ts) = f.blank :: signs ts := by
  rw [signs, List.map_cons, List.filter_cons_of_pos]
  · rfl
  · simpa [Form.Stays] using h

theorem blank_blank (f : Form) : f.blank.blank = f.blank := by
  by_cases h : f.kind = .template
  · simp [Form.blank, h]
  · rw [Form.blank_of_ne h, Form.blank_of_ne h]

theorem signs_map_blank (ts : List Form) : signs (ts.map Form.blank) = signs ts := by
  have hblank : Form.blank ∘ Form.blank = Form.blank := funext blank_blank
  rw [signs, List.map_map, hblank, signs]

theorem signs_outline (ts : List Form) : signs (outline ts) = signs ts := by
  rw [outline, signs_map_blank]
  induction ts with
  | nil => rfl
  | cons f ts ih =>
    rw [withoutSeparators]
    split
    · rename_i hf
      rw [ih]
      have hcases : f = .symbol .semicolon ∨ f = .symbol .comma := by
        simp only [Bool.or_eq_true, Bool.and_eq_true, decide_eq_true_eq] at hf
        exact hf.imp_right And.left
      rcases hcases with rfl | rfl
      · exact (List.filter_cons_of_neg (by decide)).symm
      · exact (List.filter_cons_of_neg (by decide)).symm
    · rw [← List.singleton_append, signs_append, ih, ← signs_append, List.singleton_append]

/-- A text that diverges from tokens has other signs. -/
theorem Diverges.signs_ne {s : Bytes} {fs : List Form} (h : Diverges s fs) :
    signs (formsOf s) ≠ signs fs := by
  obtain ⟨same, f, g, rest, rest', rfl, hforms, hne, hf, hg⟩ := h
  rw [hforms, signs_append, signs_append, signs_cons hf, signs_cons hg]
  intro heq
  have := List.append_cancel_left heq
  exact hne (List.cons.inj this).1.symm

theorem Expr.signs_spells (e : Expr) {ts : List Form} (h : Spells ts e) (he : e.Respects) :
    signs ts = signs e.forms := by
  have houtline := e.outline_spells h he []
  simp only [List.append_nil, outline_nil] at houtline
  rw [← signs_outline, houtline, signs_map_blank]

/-! ## Trees spelled by their own tokens -/

theorem append_cons_inj_of_le {a b us vs : List Form} {f g : Form}
    (h : a ++ f :: b = us ++ g :: vs) (hl : a.length ≤ us.length) (hr : b.length ≤ vs.length) :
    us = a ∧ vs = b := by
  have hlength := congrArg List.length h
  simp only [List.length_append, List.length_cons] at hlength
  obtain ⟨hleft, hright⟩ := List.append_inj h (by omega)
  exact ⟨hleft.symm, (List.cons.inj hright).2.symm⟩

namespace Expr

mutual

/-- Tokens that spell a tree are at least as many as those of the tree. -/
-- By induction on the expression: what was read may have more forms than the printed one, for a
-- comma may stand behind the last element of a list, but never fewer.
theorem length_forms_le : ∀ (e : Expr) {ts : List Form}, Spells ts e →
    e.forms.length ≤ ts.length
  | .literal _ .number _ _, _, rfl | .literal _ .string _ _, _, rfl | .literal _ .bool _ _, _, rfl
  | .literal _ .null _ _, _, rfl | .literal _ .undefined _ _, _, rfl | .identifier _ _, _, rfl =>
    Nat.le_refl _
  | .binary _ _ l r, _, ⟨us, vs, rfl, hus, hvs⟩ => by
    have := l.length_forms_le hus
    have := r.length_forms_le hvs
    simp only [forms, List.length_append, List.length_cons]
    omega
  | .unary _ _ x, _, ⟨us, rfl, hus⟩ => by
    have := x.length_forms_le hus
    simp only [forms, List.length_cons]
    omega
  | .trailing _ _ x, _, ⟨us, rfl, hus⟩ => by
    have := x.length_forms_le hus
    simp only [forms, List.length_append, List.length_cons]
    omega
  | .member _ b _ _, _, ⟨us, rfl, hus⟩ => by
    have := b.length_forms_le hus
    simp only [forms, List.length_append, List.length_cons]
    omega
  | .index _ b i, _, ⟨us, vs, rfl, hus, hvs⟩ => by
    have := b.length_forms_le hus
    have := i.length_forms_le hvs
    simp only [forms, List.length_append, List.length_cons]
    omega
  | .call _ c args, _, ⟨us, vs, rfl, hus, hvs⟩ => by
    have := c.length_forms_le hus
    have := length_formsList_le args hvs
    simp only [forms, List.length_append, List.length_cons]
    omega
  | .array _ xs, _, ⟨us, rfl, hus⟩ => by
    have := length_formsList_le xs hus
    simp only [forms, List.length_append, List.length_cons]
    omega
  | .construct _ c args true, _, ⟨us, vs, rfl, hus, hvs⟩ => by
    obtain ⟨ws, rfl, hws⟩ := hvs
    have := c.length_forms_le hus
    have := length_formsList_le args hws
    simp only [forms, List.length_append, List.length_cons, if_true]
    omega
  | .construct _ c args false, _, ⟨us, vs, rfl, hus, hvs⟩ => by
    obtain rfl : vs = [] := hvs
    have := c.length_forms_le hus
    simp only [forms, List.length_append, List.length_cons, Bool.false_eq_true, if_false]
    omega
  | .ternary _ c a b, _, ⟨us, vs, ws, rfl, hus, hvs, hws⟩ => by
    have := c.length_forms_le hus
    have := a.length_forms_le hvs
    have := b.length_forms_le hws
    simp only [forms, List.length_append, List.length_cons]
    omega
  | .template .., _, ⟨raw, rfl, _⟩ => Nat.le_refl _
  | .group _ x, _, ⟨us, rfl, hus⟩ => by
    have := x.length_forms_le hus
    simp only [forms, List.length_append, List.length_cons]
    omega

theorem length_formsList_le : ∀ (xs : List Expr) {ts : List Form}, SpellsList ts xs →
    (formsList xs).length ≤ ts.length
  | [], _, rfl => Nat.le_refl _
  | [x], _, ⟨us, hus, hmore⟩ => by
    have := x.length_forms_le hus
    rcases hmore with ⟨_, rfl⟩ | ⟨vs, rfl, _⟩
    · exact this
    · simp only [formsList, List.length_append]
      omega
  | x :: y :: xs, _, ⟨us, hus, .inr ⟨vs, rfl, hvs⟩⟩ => by
    have := x.length_forms_le hus
    have := length_formsList_le (y :: xs) hvs
    simp only [formsList, List.length_append, List.length_cons]
    omega

end

end Expr

/-! ## Reading a printed tree again -/

namespace Expr

/-- A printed tree is read again as a spelling of the tree exactly if its tokens stay apart and it
is spelled by them. -/
theorem reads_again_iff (x : Expr) {ts : List Form} (hts : Spells ts x) (hx : x.Respects)
    (hdelivered : ∀ f ∈ ts, f.Delivered) :
    Faultless x.format ∧ Spells (formsOf x.format) x ↔ x.apart = true ∧ Spells x.forms x := by
  have hread := (x.readsBack hts hx hdelivered).loosely .nil (by decide)
  rcases hread with ⟨hapart, hlexes⟩ | ⟨hapart, hdiverges⟩
  · have hforms := hlexes.forms
    have hfaultless := hlexes.faultless
    rw [List.append_nil] at hforms hfaultless
    rw [formsOf_nil, List.append_nil] at hforms
    rw [hforms, hfaultless]
    simp [hapart, faultless_nil]
  · rw [List.append_nil] at hdiverges
    constructor
    · intro h
      exact absurd (x.signs_spells h.2 hx) hdiverges.signs_ne
    · intro h
      exact absurd h.1 hapart

/-! A tree is spelled by its own tokens exactly if its parts are: no part has fewer tokens that
spell it, so what spells the tree is cut between the parts where its own tokens are. -/

section

variable {span : Span} {l r x b i c y n : Expr} {args xs : List Expr}

theorem spells_forms_binary {op : TokenKind} :
    Spells (binary span op l r).forms (binary span op l r)
      ↔ Spells l.forms l ∧ Spells r.forms r := by
  constructor
  · rintro ⟨us, vs, heq, hus, hvs⟩
    obtain ⟨rfl, rfl⟩ := append_cons_inj_of_le heq (l.length_forms_le hus) (r.length_forms_le hvs)
    exact ⟨hus, hvs⟩
  · rintro ⟨hl, hr⟩
    exact ⟨_, _, rfl, hl, hr⟩

theorem spells_forms_unary {op : TokenKind} :
    Spells (unary span op x).forms (unary span op x) ↔ Spells x.forms x := by
  constructor
  · rintro ⟨us, heq, hus⟩
    rwa [(List.cons.inj heq).2]
  · intro hx
    exact ⟨_, rfl, hx⟩

theorem spells_forms_trailing {op : TokenKind} :
    Spells (trailing span op x).forms (trailing span op x) ↔ Spells x.forms x := by
  constructor
  · rintro ⟨us, heq, hus⟩
    rwa [List.append_cancel_right heq]
  · intro hx
    exact ⟨_, rfl, hx⟩

theorem spells_forms_member {name : Bytes} {nameSpan : Span} :
    Spells (member span b name nameSpan).forms (member span b name nameSpan)
      ↔ Spells b.forms b := by
  constructor
  · rintro ⟨us, heq, hus⟩
    rwa [List.append_cancel_right heq]
  · intro hb
    exact ⟨_, rfl, hb⟩

theorem spells_forms_index :
    Spells (index span b i).forms (index span b i) ↔ Spells b.forms b ∧ Spells i.forms i := by
  constructor
  · rintro ⟨us, vs, heq, hus, hvs⟩
    obtain ⟨rfl, rfl⟩ := append_cons_inj_of_le (List.append_cancel_right heq)
      (b.length_forms_le hus) (i.length_forms_le hvs)
    exact ⟨hus, hvs⟩
  · rintro ⟨hb, hi⟩
    exact ⟨_, _, rfl, hb, hi⟩

theorem spells_forms_call :
    Spells (call span c args).forms (call span c args)
      ↔ Spells c.forms c ∧ SpellsList (formsList args) args := by
  constructor
  · rintro ⟨us, vs, heq, hus, hvs⟩
    obtain ⟨rfl, rfl⟩ := append_cons_inj_of_le (List.append_cancel_right heq)
      (c.length_forms_le hus) (length_formsList_le args hvs)
    exact ⟨hus, hvs⟩
  · rintro ⟨hc, hargs⟩
    exact ⟨_, _, rfl, hc, hargs⟩

theorem spells_forms_array :
    Spells (array span xs).forms (array span xs) ↔ SpellsList (formsList xs) xs := by
  constructor
  · rintro ⟨us, heq, hus⟩
    rwa [(List.cons.inj (List.append_cancel_right heq)).2]
  · intro hxs
    exact ⟨_, rfl, hxs⟩

theorem spells_forms_construct :
    Spells (construct span c args true).forms (construct span c args true)
      ↔ Spells c.forms c ∧ SpellsList (formsList args) args := by
  constructor
  · rintro ⟨us, vs, heq, hus, ws, rfl, hws⟩
    simp only [forms, if_true, List.cons_append, List.cons.injEq, true_and] at heq
    rw [← List.cons_append, ← List.append_assoc, ← List.cons_append, ← List.append_assoc] at heq
    obtain ⟨rfl, rfl⟩ := append_cons_inj_of_le (List.append_cancel_right heq)
      (c.length_forms_le hus) (length_formsList_le args hws)
    exact ⟨hus, hws⟩
  · rintro ⟨hc, hargs⟩
    exact ⟨c.forms, _, rfl, hc, _, rfl, hargs⟩

theorem spells_forms_openNew :
    Spells (construct span c [] false).forms (construct span c [] false) ↔ Spells c.forms c := by
  constructor
  · rintro ⟨us, vs, heq, hus, rfl⟩
    have hforms : c.forms = us := by simpa [forms] using heq
    rwa [hforms]
  · intro hc
    exact ⟨c.forms, [], rfl, hc, rfl⟩

theorem spells_forms_ternary :
    Spells (ternary span c y n).forms (ternary span c y n)
      ↔ (Spells c.forms c ∧ Spells y.forms y) ∧ Spells n.forms n := by
  constructor
  · rintro ⟨us, vs, ws, heq, hus, hvs, hws⟩
    have hc := c.length_forms_le hus
    have hy := y.length_forms_le hvs
    have hn := n.length_forms_le hws
    obtain ⟨hleft, rfl⟩ := append_cons_inj_of_le heq
      (by simp only [List.length_append, List.length_cons]; omega) hn
    obtain ⟨rfl, rfl⟩ := append_cons_inj_of_le hleft.symm hc hy
    exact ⟨⟨hus, hvs⟩, hws⟩
  · rintro ⟨⟨hc, hy⟩, hn⟩
    exact ⟨_, _, _, rfl, hc, hy, hn⟩

theorem spells_forms_group :
    Spells (group span x).forms (group span x) ↔ Spells x.forms x := by
  constructor
  · rintro ⟨us, heq, hus⟩
    rwa [(List.cons.inj (List.append_cancel_right heq)).2]
  · intro hx
    exact ⟨_, rfl, hx⟩

/-- The text of a template that was read is closed, so it is spelled by itself exactly if its pieces
spell its parts. -/
theorem spells_forms_template {parts : List (Bytes × Expr)} {tail : Bytes} {ts : List Form}
    (hts : Spells ts (template span parts tail)) (hrespects : RespectsParts parts)
    (hdelivered : ∀ f ∈ ts, f.Delivered) :
    Spells (template span parts tail).forms (template span parts tail)
      ↔ SpellsParts (formatPieces parts) parts := by
  obtain ⟨_, hclosed, htail, hpieces⟩ := template_reads hts hrespects hdelivered
  constructor
  · rintro ⟨raw, heq, _, _, hparts⟩
    obtain rfl : (template span parts tail).format = raw :=
      (Form.mk.inj (List.cons.inj heq).1).2
    rwa [hpieces] at hparts
  · intro hparts
    exact ⟨(template span parts tail).format, rfl, hclosed, htail, by rwa [hpieces]⟩

theorem spellsList_formsList_singleton :
    SpellsList (formsList [x]) [x] ↔ Spells x.forms x := by
  constructor
  · rintro ⟨us, hus, ⟨_, heq⟩ | ⟨vs, heq, _⟩⟩
    · rwa [← heq] at hus
    · have hle := x.length_forms_le hus
      have hlength := congrArg List.length heq
      simp only [formsList, List.length_append, List.length_cons] at hlength
      omega
  · intro hx
    exact ⟨_, hx, .inl ⟨rfl, rfl⟩⟩

theorem spellsList_formsList_cons :
    SpellsList (formsList (x :: y :: xs)) (x :: y :: xs)
      ↔ Spells x.forms x ∧ SpellsList (formsList (y :: xs)) (y :: xs) := by
  constructor
  · rintro ⟨us, hus, ⟨hnil, _⟩ | ⟨vs, heq, hvs⟩⟩
    · cases hnil
    · obtain ⟨rfl, rfl⟩ := append_cons_inj_of_le heq (x.length_forms_le hus)
        (length_formsList_le (y :: xs) hvs)
      exact ⟨hus, hvs⟩
  · rintro ⟨hx, hxs⟩
    exact ⟨_, hx, .inr ⟨_, rfl, hxs⟩⟩

end

mutual

/-- A tree that was read is spelled by its own tokens exactly if the tokens of the substitutions of
its templates stay apart. -/
-- By induction on the expression.  A leaf spells itself, a node asks it of its parts, and only a
-- template asks more: its printed substitutions have to be cut out again as they were put in.
theorem spells_forms_iff : ∀ (e : Expr) {ts : List Form}, Spells ts e → e.Respects →
    (∀ f ∈ ts, f.Delivered) → (Spells e.forms e ↔ e.apartInside = true)
  | .literal _ .number _ _, _, _, _, _ | .literal _ .string _ _, _, _, _, _
  | .literal _ .bool _ _, _, _, _, _ | .literal _ .null _ _, _, _, _, _
  | .literal _ .undefined _ _, _, _, _, _ | .identifier _ _, _, _, _, _ =>
    ⟨fun _ => rfl, fun _ => rfl⟩
  | .binary _ op l r, _, ⟨us, vs, rfl, hus, hvs⟩, ⟨_, hl, hr⟩, h => by
    rw [List.forall_mem_append, List.forall_mem_cons] at h
    rw [spells_forms_binary, apartInside, Bool.and_eq_true, l.spells_forms_iff hus hl h.1,
      r.spells_forms_iff hvs hr h.2.2]
  | .unary _ op x, _, ⟨us, rfl, hus⟩, ⟨_, _, hx⟩, h => by
    rw [List.forall_mem_cons] at h
    rw [spells_forms_unary, apartInside, x.spells_forms_iff hus hx h.2]
  | .trailing _ op x, _, ⟨us, rfl, hus⟩, ⟨_, _, hx⟩, h => by
    rw [List.forall_mem_append] at h
    rw [spells_forms_trailing, apartInside, x.spells_forms_iff hus hx h.1]
  | .member _ b n _, _, ⟨us, rfl, hus⟩, ⟨_, _, hb⟩, h => by
    rw [List.forall_mem_append] at h
    rw [spells_forms_member, apartInside, b.spells_forms_iff hus hb h.1]
  | .index _ b i, _, ⟨us, vs, rfl, hus, hvs⟩, ⟨_, hb, hi⟩, h => by
    simp only [List.append_assoc, List.cons_append, List.forall_mem_append,
      List.forall_mem_cons] at h
    rw [spells_forms_index, apartInside, Bool.and_eq_true, b.spells_forms_iff hus hb h.1,
      i.spells_forms_iff hvs hi h.2.2.1]
  | .call _ c args, _, ⟨us, vs, rfl, hus, hvs⟩, ⟨_, _, hc, hargs⟩, h => by
    simp only [List.append_assoc, List.cons_append, List.forall_mem_append,
      List.forall_mem_cons] at h
    rw [spells_forms_call, apartInside, Bool.and_eq_true, c.spells_forms_iff hus hc h.1,
      spellsList_formsList_iff args hvs hargs h.2.2.1]
  | .array _ xs, _, ⟨us, rfl, hus⟩, hxs, h => by
    simp only [List.cons_append, List.forall_mem_append, List.forall_mem_cons] at h
    rw [spells_forms_array, apartInside, spellsList_formsList_iff xs hus hxs h.2.1]
  | .construct _ c args true, _, ⟨us, vs, rfl, hus, hvs⟩, ⟨_, _, _, hc, hargs⟩, h => by
    obtain ⟨ws, rfl, hws⟩ := hvs
    simp only [List.cons_append, List.forall_mem_append, List.forall_mem_cons] at h
    rw [spells_forms_construct, apartInside, Bool.and_eq_true, c.spells_forms_iff hus hc h.2.1,
      spellsList_formsList_iff args hws hargs h.2.2.2.1]
  | .construct _ c args false, _, ⟨us, vs, rfl, hus, hvs⟩, ⟨_, _, hargs, hc, _⟩, h => by
    obtain rfl : vs = [] := hvs
    obtain rfl := hargs rfl
    simp only [List.append_nil, List.forall_mem_cons] at h
    rw [spells_forms_openNew, apartInside, apartInsideAll, Bool.and_true,
      c.spells_forms_iff hus hc h.2]
  | .ternary _ c a b, _, ⟨us, vs, ws, rfl, hus, hvs, hws⟩, ⟨_, hc, ha, hb⟩, h => by
    simp only [List.append_assoc, List.cons_append, List.forall_mem_append,
      List.forall_mem_cons] at h
    rw [spells_forms_ternary, apartInside, Bool.and_eq_true, Bool.and_eq_true,
      c.spells_forms_iff hus hc h.1, a.spells_forms_iff hvs ha h.2.2.1,
      b.spells_forms_iff hws hb h.2.2.2.2]
  | .template span parts tail, ts, hts, hrespects, h => by
    rw [spells_forms_template hts hrespects h, apartInside]
    obtain ⟨raw, rfl, _, _, hparts⟩ := hts
    exact spellsParts_formatPieces_iff parts hparts hrespects
  | .group _ x, _, ⟨us, rfl, hus⟩, hx, h => by
    simp only [List.cons_append, List.forall_mem_append, List.forall_mem_cons] at h
    rw [spells_forms_group, apartInside, x.spells_forms_iff hus hx h.2.1]

theorem spellsList_formsList_iff : ∀ (xs : List Expr) {ts : List Form}, SpellsList ts xs →
    RespectsAll xs → (∀ f ∈ ts, f.Delivered) →
    (SpellsList (formsList xs) xs ↔ apartInsideAll xs = true)
  | [], _, _, _, _ => ⟨fun _ => rfl, fun _ => rfl⟩
  | [x], _, ⟨us, hus, hmore⟩, ⟨hx, _⟩, h => by
    have hsub : ∀ f ∈ us, f.Delivered := by
      rcases hmore with ⟨_, rfl⟩ | ⟨vs, rfl, _⟩
      · exact h
      · exact (List.forall_mem_append.mp h).1
    rw [spellsList_formsList_singleton, apartInsideAll, apartInsideAll, Bool.and_true,
      x.spells_forms_iff hus hx hsub]
  | x :: y :: xs, _, ⟨us, hus, .inr ⟨vs, rfl, hvs⟩⟩, ⟨hx, hxs⟩, h => by
    rw [List.forall_mem_append, List.forall_mem_cons] at h
    rw [spellsList_formsList_cons, apartInsideAll, Bool.and_eq_true, x.spells_forms_iff hus hx h.1,
      spellsList_formsList_iff (y :: xs) hvs hxs h.2.2]

theorem spellsParts_formatPieces_iff : ∀ (parts : List (Bytes × Expr))
    {pieces : List (Bytes × Bytes)}, SpellsParts pieces parts → RespectsParts parts →
    (SpellsParts (formatPieces parts) parts ↔ apartInsideParts parts = true)
  | [], _, _, _ => ⟨fun _ => rfl, fun _ => rfl⟩
  | (text, x) :: rest, _, ⟨source, more, rfl, hfaultless, hsource, hmore⟩, ⟨hx, hrest⟩ => by
    have hdelivered := delivered_of_faultless hfaultless
    rw [apartInsideParts, Bool.and_eq_true, Bool.and_eq_true,
      ← x.spells_forms_iff hsource hx hdelivered, ← x.reads_again_iff hsource hx hdelivered,
      ← spellsParts_formatPieces_iff rest hmore hrest, and_assoc]
    constructor
    · rintro ⟨source', more', heq, hparts⟩
      obtain ⟨hpiece, rfl⟩ := List.cons.inj heq
      obtain rfl := (Prod.mk.inj hpiece).2
      exact hparts
    · intro hparts
      exact ⟨_, _, rfl, hparts⟩

end

end Expr

/-! ## Places -/

namespace Expr

mutual

/-- Where a tree stands does not decide what spells it. -/
theorem spells_erase : ∀ (e : Expr) (ts : List Form), Spells ts e.erase ↔ Spells ts e
  | .literal _ .number _ _, _ | .literal _ .string _ _, _ | .literal _ .bool _ _, _
  | .literal _ .null _ _, _ | .literal _ .undefined _ _, _ | .identifier _ _, _ => Iff.rfl
  | .binary _ _ l r, _ => by simp only [erase, Spells, l.spells_erase, r.spells_erase]
  | .unary _ _ x, _ => by simp only [erase, Spells, x.spells_erase]
  | .trailing _ _ x, _ => by simp only [erase, Spells, x.spells_erase]
  | .member _ b _ _, _ => by simp only [erase, Spells, b.spells_erase]
  | .index _ b i, _ => by simp only [erase, Spells, b.spells_erase, i.spells_erase]
  | .call _ c args, _ => by simp only [erase, Spells, c.spells_erase, spellsList_erase args]
  | .array _ xs, _ => by simp only [erase, Spells, spellsList_erase xs]
  | .construct _ c args _, _ => by
    simp only [erase, Spells, c.spells_erase, spellsList_erase args]
  | .ternary _ c a b, _ => by
    simp only [erase, Spells, c.spells_erase, a.spells_erase, b.spells_erase]
  | .template _ parts _, _ => by simp only [erase, Spells, spellsParts_erase parts]
  | .group _ x, _ => by simp only [erase, Spells, x.spells_erase]
  | .missing, _ => Iff.rfl

theorem spellsList_erase : ∀ (xs : List Expr) (ts : List Form),
    SpellsList ts (eraseAll xs) ↔ SpellsList ts xs
  | [], _ => Iff.rfl
  | x :: xs, _ => by
    have hnil : eraseAll xs = [] ↔ xs = [] := by
      cases xs <;> simp [eraseAll]
    simp only [eraseAll, SpellsList, x.spells_erase, spellsList_erase xs, hnil]

theorem spellsParts_erase : ∀ (parts : List (Bytes × Expr)) (pieces : List (Bytes × Bytes)),
    SpellsParts pieces (eraseParts parts) ↔ SpellsParts pieces parts
  | [], _ => Iff.rfl
  | (_, x) :: rest, _ => by
    simp only [eraseParts, SpellsParts, x.spells_erase, spellsParts_erase rest]

end

mutual

/-- Where a tree stands does not decide how it is printed. -/
theorem format_erase : ∀ (e : Expr), e.erase.format = e.format
  | .literal .. | .identifier .. | .missing => rfl
  | .binary _ _ l r => by simp only [erase, format, l.format_erase, r.format_erase]
  | .unary _ _ x => by simp only [erase, format, x.format_erase]
  | .trailing _ _ x => by simp only [erase, format, x.format_erase]
  | .member _ b _ _ => by simp only [erase, format, b.format_erase]
  | .index _ b i => by simp only [erase, format, b.format_erase, i.format_erase]
  | .call _ c args => by simp only [erase, format, c.format_erase, formatList_erase args]
  | .array _ xs => by simp only [erase, format, formatList_erase xs]
  | .construct _ c args _ => by simp only [erase, format, c.format_erase, formatList_erase args]
  | .ternary _ c a b => by
    simp only [erase, format, c.format_erase, a.format_erase, b.format_erase]
  | .template _ parts _ => by simp only [erase, format, formatParts_erase parts]
  | .group _ x => by simp only [erase, format, x.format_erase]

theorem formatList_erase : ∀ (xs : List Expr), formatList (eraseAll xs) = formatList xs
  | [] => rfl
  | [x] => x.format_erase
  | x :: y :: xs => by
    have hrest := formatList_erase (y :: xs)
    simp only [eraseAll, formatList, x.format_erase] at hrest ⊢
    rw [hrest]

theorem formatParts_erase : ∀ (parts : List (Bytes × Expr)),
    formatParts (eraseParts parts) = formatParts parts
  | [] => rfl
  | (_, x) :: rest => by simp only [eraseParts, formatParts, x.format_erase, formatParts_erase rest]

end

end Expr

theorem format_of_erase {es es' : Statements} (h : es.map Expr.erase = es'.map Expr.erase) :
    es.format = es'.format := by
  have hformat : ∀ es : Statements, es.map Expr.format = (es.map Expr.erase).map Expr.format := by
    intro es
    rw [List.map_map]
    exact List.map_congr_left fun e _ => e.format_erase.symm
  rw [Statements.format, Statements.format, hformat es, hformat es', h]

theorem SpellsScript.of_erase {ts : List Form} {es es' : Statements} (h : SpellsScript ts es)
    (herase : es.map Expr.erase = es'.map Expr.erase) : SpellsScript ts es' := by
  induction h generalizing es' with
  | nil =>
    obtain rfl : es' = [] := by simpa using herase.symm
    exact .nil
  | skip h ih => exact .skip (ih herase)
  | @cons ts us e es hts hs hsep ih =>
    cases es' with
    | nil => cases herase
    | cons e' es' =>
      obtain ⟨he, hes⟩ := List.cons.inj herase
      refine .cons ?_ (ih hes) hsep
      rwa [← e'.spells_erase, ← he, e.spells_erase]

/-! ## Scripts -/

/-- Whether a tree was read: it respects the precedence table, and delivered tokens spell it. -/
def Expr.WasRead (e : Expr) : Prop := e.Respects ∧ ∃ ts, Spells ts e ∧ ∀ f ∈ ts, f.Delivered

theorem wasRead_of_spellsScript {ts : List Form} {es : Statements} (h : SpellsScript ts es)
    (hrespects : ∀ e ∈ es, e.Respects) (hdelivered : ∀ f ∈ ts, f.Delivered) :
    ∀ e ∈ es, e.WasRead := by
  induction h with
  | nil => exact nofun
  | skip h ih => exact ih hrespects fun f hf => hdelivered f (List.mem_cons_of_mem _ hf)
  | @cons ts us e es hts hs hsep ih =>
    rw [List.forall_mem_append] at hdelivered
    rw [List.forall_mem_cons] at hrespects ⊢
    exact ⟨⟨hrespects.1, ts, hts, hdelivered.1⟩, ih hrespects.2 hdelivered.2⟩

theorem Statements.format_cons (e y : Expr) (es : Statements) :
    Statements.format (e :: y :: es)
      = e.format ++ ((Form.symbol .semicolon).text ++ (blank ++ Statements.format (y :: es))) := by
  have hsep : (("; " : String) : Bytes) = (Form.symbol .semicolon).text ++ blank := by decide
  cases es with
  | nil => simp [Statements.format, Bytes.join, hsep]
  | cons z es => simp [Statements.format, Bytes.join, hsep]

/-- The text of a script is read as the tokens of its trees unless two of them grow together. -/
theorem readBack_script : ∀ {es : Statements}, (∀ e ∈ es, e.WasRead) →
    ReadBack (∀ e ∈ es, e.apart = true) (Statements.format es) (scriptForms es) []
  | [], _ => (ReadBack.nil []).congr (by simp)
  | [e], h => by
    obtain ⟨he, ts, hts, hdelivered⟩ := h e (by simp)
    have hread := (e.readsBack hts he hdelivered).loosely .nil (by decide)
    exact hread.congr (by simp)
  | e :: y :: es, h => by
    rw [List.forall_mem_cons] at h
    obtain ⟨he, ts, hts, hdelivered⟩ := h.1
    have hrest := readBack_script h.2
    have hfirst : ReadBack (e.apart = true) e.format e.forms ((Form.symbol .semicolon).text
        ++ (blank ++ Statements.format (y :: es)) ++ []) :=
      (e.readsBack hts he hdelivered).before (by decide) _
    rw [Statements.format_cons, scriptForms]
    · exact (hfirst.append ((bracket_readBack (by decide) _).append hrest.space)).congr (by simp)
    · exact List.cons_ne_nil _ _

theorem SpellsScript.eq_nil {ts : List Form} {es : Statements} (h : SpellsScript ts es)
    (hts : ts = []) : es = [] := by
  cases h with
  | nil => rfl
  | skip _ => cases hts
  | cons he _ _ => exact absurd (List.append_eq_nil_iff.mp hts).1 he.ne_nil

theorem spells_semicolon {ts us vs : List Form} {e : Expr} (h : Spells ts e) (he : e.Respects) :
    ts ++ us ≠ .symbol .semicolon :: vs := by
  obtain ⟨f, fs, rfl, hstart, _⟩ := e.first_of_spells h he
  intro heq
  obtain ⟨rfl, _⟩ := List.cons.inj heq
  cases hstart

/-- Tokens that spell statements are at least as many as those of the statements, also without a
semicolon at the front. -/
theorem length_scriptForms_le {ts : List Form} {es : Statements} (h : SpellsScript ts es)
    (hrespects : ∀ e ∈ es, e.Respects) :
    (scriptForms es).length ≤ ts.length
      ∧ ∀ vs, ts = .symbol .semicolon :: vs → (scriptForms es).length ≤ vs.length := by
  induction h with
  | nil => exact ⟨Nat.le_refl _, nofun⟩
  | @skip ts es h ih =>
    obtain ⟨hle, _⟩ := ih hrespects
    refine ⟨Nat.le_succ_of_le hle, fun vs hvs => ?_⟩
    rwa [← (List.cons.inj hvs).2]
  | @cons ts us e es hts hs hsep ih =>
    rw [List.forall_mem_cons] at hrespects
    refine ⟨?_, fun vs hvs => absurd hvs (spells_semicolon hts hrespects.1)⟩
    have hle := e.length_forms_le hts
    cases es with
    | nil =>
      rw [List.length_append]
      exact Nat.le_add_right_of_le hle
    | cons y es =>
      rcases hsep with rfl | ⟨vs, rfl⟩
      · cases hs.eq_nil rfl
      · have := (ih hrespects.2).2 vs rfl
        simp only [scriptForms, List.length_append, List.length_cons]
        omega

/-- Statements are spelled by their own tokens only if each of them is. -/
theorem spells_of_scriptForms {ts : List Form} {es : Statements} (h : SpellsScript ts es)
    (hrespects : ∀ e ∈ es, e.Respects)
    (hts : ts = scriptForms es ∨ ts = .symbol .semicolon :: scriptForms es) :
    ∀ e ∈ es, Spells e.forms e := by
  induction h with
  | nil => exact List.forall_mem_nil _
  | @skip ts es h ih =>
    rcases hts with hts | hts
    · have hle := (length_scriptForms_le h hrespects).1
      rw [← hts, List.length_cons] at hle
      omega
    · exact ih hrespects (.inl (List.cons.inj hts).2)
  | @cons ts us e es hspells hs hsep ih =>
    rw [List.forall_mem_cons] at hrespects ⊢
    have hle := e.length_forms_le hspells
    rcases hts with hts | hts
    · cases es with
      | nil =>
        have hlength := congrArg List.length hts
        simp only [scriptForms, List.length_append] at hlength hts
        obtain rfl : us = [] := List.length_eq_zero_iff.mp (by omega)
        rw [List.append_nil] at hts
        exact ⟨hts ▸ hspells, List.forall_mem_nil _⟩
      | cons y es =>
        rcases hsep with rfl | ⟨vs, rfl⟩
        · cases hs.eq_nil rfl
        · have hrest := (length_scriptForms_le hs hrespects.2).2 vs rfl
          obtain ⟨rfl, rfl⟩ := append_cons_inj_of_le hts.symm hle hrest
          exact ⟨hspells, ih hrespects.2 (.inr rfl)⟩
    · exact absurd hts (spells_semicolon hspells hrespects.1)

theorem signs_scriptForms : ∀ (es : Statements),
    signs (scriptForms es) = signs (es.flatMap Expr.forms)
  | [] => rfl
  | [e] => by simp [scriptForms]
  | e :: y :: es => by
    have hsemicolon : signs [.symbol .semicolon] = [] := by decide
    rw [scriptForms, List.flatMap_cons, signs_append, signs_append, ← List.singleton_append,
      signs_append, hsemicolon, signs_scriptForms (y :: es)]
    · rfl
    · exact List.cons_ne_nil _ _

/-- The text of a script that was read spells the script again exactly if its trees are
separable. -/
theorem script_reads_again_iff {es : Statements} (h : ∀ e ∈ es, e.WasRead) :
    Faultless (Statements.format es) ∧ SpellsScript (formsOf (Statements.format es)) es
      ↔ ∀ e ∈ es, e.Separable := by
  have hrespects : ∀ e ∈ es, e.Respects := fun e he => (h e he).1
  -- inside a statement only the templates matter
  have hinside : ∀ e ∈ es, (Spells e.forms e ↔ e.apartInside = true) := by
    intro e he
    obtain ⟨hr, ts, hts, hdelivered⟩ := h e he
    exact e.spells_forms_iff hts hr hdelivered
  have hsplit : (∀ e ∈ es, e.Separable)
      ↔ (∀ e ∈ es, e.apart = true) ∧ ∀ e ∈ es, Spells e.forms e := by
    constructor
    · intro hsep
      exact ⟨fun e he => (hsep e he).1, fun e he => (hinside e he).mpr (hsep e he).2⟩
    · rintro ⟨hapart, hspells⟩ e he
      exact ⟨hapart e he, (hinside e he).mp (hspells e he)⟩
  rw [hsplit]
  -- either the printed text is read as the forms it was made of, or two signs have run into one
  rcases readBack_script h with ⟨hapart, hlexes⟩ | ⟨hapart, hdiverges⟩
  · have hforms := hlexes.forms
    have hfaultless := hlexes.faultless
    rw [List.append_nil] at hforms hfaultless
    rw [formsOf_nil, List.append_nil] at hforms
    rw [hforms, hfaultless]
    constructor
    · rintro ⟨_, hspells⟩
      exact ⟨hapart, spells_of_scriptForms hspells hrespects (.inl rfl)⟩
    · rintro ⟨_, hspells⟩
      exact ⟨faultless_nil, spellsScript_scriptForms hspells⟩
  · rw [List.append_nil] at hdiverges
    constructor
    -- runs of signs are kept by an outline, and here they are not the same
    · rintro ⟨_, hspells⟩
      refine absurd ?_ hdiverges.signs_ne
      have houtline := outline_spellsScript hspells hrespects
      rw [← signs_outline, houtline, signs_map_blank]
      exact (signs_scriptForms es).symm
    · rintro ⟨hapart', _⟩
      exact absurd hapart' hapart

theorem rebuild_of_spells {text : Bytes} {es : Statements} (hfaultless : Faultless text)
    (hspells : SpellsScript (formsOf text) es) (hrespects : ∀ e ∈ es, e.Respects) :
    Program.rebuild text = es.format := by
  obtain ⟨hquiet, herase⟩ := parse_complete 0 0 hfaultless hspells hrespects
  rw [Program.rebuild]
  simp only [hquiet, List.isEmpty_nil, if_true]
  exact format_of_erase herase

/-- The standard form of a script that is read without a report is the script printed.  It is read
without a report again, to the same trees, and is its own standard form, exactly if no two tokens
of the script grow together. -/
theorem standard_form_round_trip {text : Bytes} {file : FileId}
    (h : (parse text file 0).diagnostics = []) (file' : FileId) :
    Program.rebuild text = (parse text file 0).script.format
    ∧ (((parse (parse text file 0).script.format file' 0).diagnostics = []
        ∧ (parse (parse text file 0).script.format file' 0).script.map Expr.erase
          = (parse text file 0).script.map Expr.erase
        ∧ Program.rebuild (Program.rebuild text) = Program.rebuild text)
      ↔ ∀ e ∈ (parse text file 0).script, e.Separable) := by
  obtain ⟨hfaultless, hspells, hrespects⟩ := parse_sound h
  have hread := wasRead_of_spellsScript hspells hrespects (delivered_of_faultless hfaultless)
  have hbuild := rebuild_of_spells hfaultless hspells hrespects
  refine ⟨hbuild, ?_⟩
  rw [← script_reads_again_iff hread, hbuild]
  constructor
  · rintro ⟨hquiet, herase, _⟩
    obtain ⟨hfaultless', hspells', _⟩ := parse_sound hquiet
    exact ⟨hfaultless', hspells'.of_erase herase⟩
  · rintro ⟨hfaultless', hspells'⟩
    obtain ⟨hquiet, herase⟩ := parse_complete file' 0 hfaultless' hspells' hrespects
    exact ⟨hquiet, herase, rebuild_of_spells hfaultless' hspells' hrespects⟩

/-- A script with a number that ends in a point, nested signs and a template in a template. -/
theorem standard_form_round_trip_template :
    let text : Bytes := ("y = 1. + !-x ;f(`a $\x7b [ - `n $\x7bz++ \x7d` , ] \x7d`)" : String)
    (parse text 0 0).diagnostics = []
      ∧ (parse (parse text 0 0).script.format 1 0).script.map Expr.erase
        = (parse text 0 0).script.map Expr.erase
      ∧ Program.rebuild (Program.rebuild text) = Program.rebuild text := by
  intro text
  have hquiet : (parse text 0 0).diagnostics = [] := by decide +kernel
  have hseparable : ∀ e ∈ (parse text 0 0).script, e.Separable := by decide +kernel
  exact ⟨hquiet, ((standard_form_round_trip hquiet 1).2.mpr hseparable).2⟩

/-- A minus sign before a minus sign is read without a report, and its standard form as the
decrement of a variable. -/
theorem standard_form_of_double_minus :
    let text : Bytes := ("- -x" : String)
    (parse text 0 0).diagnostics = []
      ∧ (parse (parse text 0 0).script.format 0 0).script.map Expr.erase
        ≠ (parse text 0 0).script.map Expr.erase := by
  refine ⟨by decide +kernel, fun herase => ?_⟩
  have hforms := congrArg (List.map Expr.forms) herase
  exact absurd hforms (by decide +kernel)

end Storyline.Script
