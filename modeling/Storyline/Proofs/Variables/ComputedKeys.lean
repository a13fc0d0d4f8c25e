import Storyline.Proofs.Script.Strings
import Storyline.Proofs.Variables.Trails

/-!
# Properties named by strings

A property may be named by a string between brackets, and then it is named by what the string means.
Together with `quoted` this reaches every name there is: a property with any name at all can be
assigned by a script.

What an assignment to a place does is said in full by `Place.Received`: it ends at the variable that
the names of the place lead to, by references of the assigning file, and what else it assigns are
such references.
-/

namespace Storyline.Variables

open Script (Expr TokenKind Window IsStringQuote quoted stringValue parse)
open Store (Trail Grows Sound)

/-! ## Where the names of a place lead -/

namespace Store

/-- Whether references of a file lead from a variable along properties with some names. -/
inductive Leads (s : Store) (file : FileId) : VarId → List Bytes → VarId → Prop
  | here (id : VarId) : Leads s file id [] id
  | through {id next last : VarId} {o : ObjectId} {n : Bytes} {names : List Bytes}
    (href : s.refers id o file = true) (hprop : s.property? o n = some next)
    (hrest : Leads s file next names last) : Leads s file id (n :: names) last

theorem Grows.refers {s t : Store} (h : Grows s t) {id : VarId} {o : ObjectId} {file : FileId}
    (href : s.refers id o file = true) : t.refers id o file = true := by
  obtain ⟨v, a, hv, ha, hfile, hk⟩ := refers_eq_true_iff.1 href
  obtain ⟨w, hw, haw⟩ := h.kept hv ha
  exact refers_eq_true_iff.2 ⟨w, a, hw, haw, hfile, hk⟩

theorem Grows.property? {s t : Store} (h : Grows s t) (ht : t.WellFormed) {o : ObjectId}
    {n : Bytes} {id : VarId} (hp : s.property? o n = some id) : t.property? o n = some id := by
  obtain ⟨h0, hf⟩ := property?_eq_some_iff.1 hp
  exact property?_eq_some_iff.2 ⟨h0, h.find? ht hf⟩

theorem Leads.later {s t : Store} {file : FileId} {id last : VarId} {names : List Bytes}
    (h : s.Leads file id names last) (hgrows : Grows s t) (ht : t.WellFormed) :
    t.Leads file id names last := by
  induction h with
  | here id => exact .here id
  | through href hprop _ ih =>
    exact .through (hgrows.refers href) (hgrows.property? ht hprop) ih

/-- What the last of some names leads through. -/
theorem Leads.through_last {s : Store} {file : FileId} {id last : VarId} {names : List Bytes}
    {n : Bytes} (h : s.Leads file id (names ++ [n]) last) :
    ∃ owner o, s.Leads file id names owner ∧ s.refers owner o file = true
      ∧ s.property? o n = some last := by
  induction names generalizing id with
  | nil =>
    obtain - | ⟨href, hprop, hrest⟩ := h
    cases hrest
    exact ⟨id, _, .here id, href, hprop⟩
  | cons m names ih =>
    obtain - | ⟨href, hprop, hrest⟩ := h
    obtain ⟨owner, o, hleads, hlast⟩ := ih hrest
    exact ⟨owner, o, .through href hprop hleads, hlast⟩

/-- A reference of a file that is needed to get from a variable along some names. -/
def Bridges (s : Store) (file : FileId) (id : VarId) (names : List Bytes)
    (e : VarId × Assignment) : Prop :=
  ∃ before after o, names = before ++ after ∧ after ≠ [] ∧ s.Leads file id before e.1
    ∧ e.2.origin = file ∧ e.2.kind = .object o

theorem Bridges.later {s t : Store} {file : FileId} {id : VarId} {names : List Bytes}
    {e : VarId × Assignment} (h : s.Bridges file id names e) (hgrows : Grows s t)
    (ht : t.WellFormed) : t.Bridges file id names e := by
  obtain ⟨before, after, o, hnames, hne, hleads, horigin, hkind⟩ := h
  exact ⟨before, after, o, hnames, hne, hleads.later hgrows ht, horigin, hkind⟩

end Store

namespace Place

/-- The names of the properties on the way to a place. -/
def names (p : Place) : List Bytes := p.2.map (·.name)

/-- Where a place has its last name. -/
def lastSpan (p : Place) : Span := (p.2.map (·.span)).getLastD p.1.span

/-- What assigning a kind to a place does to a store.  The names of the place lead from the global
`root` to the variable `id`, the kind is assigned to it last, and all else that is assigned are the
references that lead there. -/
structure Received (f : Fragment) (p : Place) (k : Kind) (s t : Store) (root id : VarId)
    (refs : List (VarId × Assignment)) : Prop where
  global : t.global? p.1.name = some root
  leads : t.Leads f.file root p.names id
  trail : Trail s (refs ++ [(id, ⟨f.file, k, p.lastSpan.shift f.base f.file⟩)]) t
  bridges : ∀ e ∈ refs, t.Bridges f.file root p.names e

end Place

theorem Operand.eq_place {o : Operand} {p : Place} (h : o.place? = some p) :
    o = .place p.1 p.2 := by
  cases o with
  | place root steps =>
    obtain rfl := Option.some.inj h
    rfl
  | value k => cases h

section Writing

variable {f : Fragment}

/-- A chain of properties leads along their names. -/
theorem resolve_leads : (steps : List Step) → {s : FoldState} → s.store.Sound → {id : VarId} →
    s.store.Rooted f.file id → (span : Span) →
    ∃ refs, Trail s.store refs ((Fold.resolve f id span steps).run s).2.store
      ∧ ((Fold.resolve f id span steps).run s).2.store.Leads f.file id (steps.map (·.name))
          ((Fold.resolve f id span steps).run s).1.1
      ∧ (∀ e ∈ refs, ((Fold.resolve f id span steps).run s).2.store.Bridges f.file id
          (steps.map (·.name)) e)
      ∧ ((Fold.resolve f id span steps).run s).1.2 = (steps.map (·.span)).getLastD span
  -- By induction on the steps: the object of a step is found or made, its property declared, and
  -- the rest starts from there.
  | [], s, _, id, _, _ => ⟨[], .refl _, .here id, List.forall_mem_nil _, rfl⟩
  | step :: rest, s, hs, id, hr, span => by
    obtain ⟨v, hv⟩ := hr.get?
    obtain ⟨hc, ⟨home, hh⟩, href⟩ := objectOf_changes hs hr span
    obtain ⟨l, htrail, hl⟩ := objectOf_trail (f := f) hv span
    obtain ⟨hd, hfind⟩ := Store.declare_changes (hc.sound hs) f.file (.inr ⟨home, hh⟩) step.name
    have hroot := resolve_changes (f := f) [step] hs hr span
    rw [resolve_run_cons] at hroot ⊢
    generalize (Fold.objectOf f id span).run s = r at hc hh href htrail hl hd hfind hroot ⊢
    have hprop : (r.2.store.declare r.1 step.name).2.property? r.1 step.name
        = some (r.2.store.declare r.1 step.name).1 :=
      Store.property?_eq_some_iff.2 ⟨Store.ne_zero_of_home? hh, hfind⟩
    have hstart : (r.2.store.declare r.1 step.name).2.Rooted f.file
        (r.2.store.declare r.1 step.name).1 := hroot.2
    have hsound := hroot.1.sound hs
    obtain ⟨hrest, -⟩ := resolve_changes (f := f) rest
      (s := { r.2 with store := (r.2.store.declare r.1 step.name).2 }) hsound hstart step.span
    obtain ⟨refs, htrail', hleads, hbridges, hlast⟩ := resolve_leads rest
      (s := { r.2 with store := (r.2.store.declare r.1 step.name).2 }) hsound hstart step.span
    have hwf := (hrest.sound hsound).toWellFormed
    -- what was there on the way is there at the end
    have href' := (hd.trans hrest).grows.refers href
    have hprop' := hrest.grows.property? hwf hprop
    have hmade := htrail.trans (Store.trail_declare r.2.store r.1 step.name)
    refine ⟨l ++ [] ++ refs, hmade.trans htrail', .through href' hprop' hleads, ?_, ?_⟩
    · rw [List.append_nil, List.forall_mem_append]
      refine ⟨fun e he => ?_, fun e he => ?_⟩
      · obtain rfl := hl e he
        exact ⟨[], step.name :: rest.map (·.name), r.1, rfl, List.cons_ne_nil _ _, .here id, rfl,
          rfl⟩
      · obtain ⟨before, after, o, hnames, hne, hto, horigin, hkind⟩ := hbridges e he
        refine ⟨step.name :: before, after, o, ?_, hne, .through href' hprop' hto, horigin, hkind⟩
        rw [List.map_cons, hnames, List.cons_append]
    · rw [List.map_cons, List.getLastD_cons]
      exact hlast

/-- A write assigns its kind to the variable that the names of its place lead to. -/
theorem perform_received {s : FoldState} (hs : s.store.Sound) {w : Write}
    (hk : s.store.Knows w.kind) :
    ∃ root id refs, w.place.Received f w.kind s.store (perform f s w).store root id refs := by
  obtain ⟨hd, hfind⟩ := Store.declare_changes hs f.file (.inl rfl) w.root.name
  obtain ⟨v, hv, howner, -⟩ := Store.get?_of_find? hfind
  have hroot := Store.rooted_of_global hv howner f.file
  have hmade := Store.trail_declare s.store 0 w.root.name
  obtain ⟨refs, htrail, hleads, hbridges, hspan⟩ := resolve_leads (f := f) w.steps
    (s := { s with store := (s.store.declare 0 w.root.name).2 }) (hd.sound hs) hroot w.root.span
  obtain ⟨hc, hend⟩ := resolve_changes (f := f) w.steps
    (s := { s with store := (s.store.declare 0 w.root.name).2 }) (hd.sound hs) hroot w.root.span
  rw [perform_run]
  dsimp only
  generalize (Fold.resolve f _ w.root.span w.steps).run _ = r at htrail hleads hbridges hspan hc hend ⊢
  obtain ⟨u, hu⟩ := hend.get?
  have hrecord := record_changes ((hd.trans hc).grows.knows hk) hend r.1.2
  have hwf := ((hd.trans hc).trans hrecord |>.sound hs).toWellFormed
  have hassign := Store.trail_assign hu ⟨f.file, w.kind, r.1.2.shift f.base f.file⟩
  refine ⟨_, r.1.1, refs, (hc.trans hrecord).grows.find? hwf hfind, hleads.later hrecord.grows hwf,
    ?_, fun e he => (hbridges e he).later hrecord.grows hwf⟩
  have hlast : w.place.lastSpan = r.1.2 := hspan.symm
  rw [hlast]
  exact (hmade.trans htrail).trans hassign

/-- An assignment to a place assigns a kind there, after everything that its two sides assign. -/
theorem walk_assign_received {s : FoldState} (hs : s.store.Sound) {op : TokenKind}
    (hop : op.isAssign = true) {left : Expr} {p : Place} (hp : place? left = some p) (span : Span)
    (right : Expr) :
    ∃ kind mid root id refs, Grows s.store mid
      ∧ ((Fold.walk f (.binary span op left right)).run s).1 = .value kind
      ∧ p.Received f kind mid ((Fold.walk f (.binary span op left right)).run s).2.store root id
          refs := by
  obtain ⟨hc, hknown⟩ := walk_folds f right s hs
  have hs₁ := hc.sound hs
  have hk := knows_assignedKind (hknown.knows_kind hs₁) op right
  obtain ⟨hc', -⟩ := walk_folds f left ((Fold.walk f right).run s).2 hs₁
  have hplace := walk_place? f left ((Fold.walk f right).run s).2
  unfold Fold.walk
  simp only [hop, if_true, run_bind, run_pure, run_kindNow]
  generalize (Fold.walk f right).run s = r at *
  generalize (Fold.walk f left).run r.2 = t at *
  rw [Operand.eq_place (hplace.trans hp)]
  obtain ⟨root, id, refs, hreceived⟩ := perform_received (f := f) (hc'.sound hs₁)
    (w := ⟨p.1, p.2, assignedKind op right (Operand.kind r.2.store r.1)⟩) (hc'.grows.knows hk)
  exact ⟨_, t.2.store, root, id, refs, hc.grows.trans hc'.grows, rfl, hreceived⟩

end Writing

/-- What assigning a kind to a property of a place does: references of the assigning file lead to
the owner of the property and on to an object, and there the kind is assigned to the property with
exactly the name that is given. -/
def Place.Assigns (f : Fragment) (p : Place) (key : Step) (k : Kind) (s t : Store) : Prop :=
  ∃ root owner o id refs, t.Leads f.file root p.names owner ∧ t.refers owner o f.file = true
    ∧ t.property? o key.name = some id
    ∧ Place.Received f (p.1, p.2 ++ [key]) k s t root id refs

theorem Place.Received.assigns {f : Fragment} {p : Place} {key : Step} {k : Kind} {s t : Store}
    {root id : VarId} {refs : List (VarId × Assignment)}
    (h : Place.Received f (p.1, p.2 ++ [key]) k s t root id refs) : p.Assigns f key k s t := by
  have hnames : Place.names (p.1, p.2 ++ [key]) = p.names ++ [key.name] := by simp [Place.names]
  obtain ⟨owner, o, hleads, href, hprop⟩ := Store.Leads.through_last (hnames ▸ h.leads)
  exact ⟨root, owner, o, id, refs, hleads, href, hprop, h⟩

/-- Every text can be written as a string literal that is read as the text, and as the key of a
property it stands for the property with that name: in `x[raw] = 1`, and in every assignment to a
property that is named like that, whatever its owner, its operator and its value are. -/
theorem quoted_keys {quote : UInt8} (hquote : IsStringQuote quote) (v : Bytes) :
    (∀ file maxErrors, parse (quoted quote v) file maxErrors
      = ⟨[.literal ⟨file, 0, (quoted quote v).length⟩ .string (quoted quote v) v], []⟩)
    ∧ (∀ file maxErrors, ∃ script nameSpan keySpan,
      parse ("x[" ++ quoted quote v ++ "] = 1") file maxErrors = ⟨script, []⟩
        ∧ (Window.whole ("x[" ++ quoted quote v ++ "] = 1") file).Stands keySpan (quoted quote v)
        ∧ ∀ ops base, Place.Assigns ⟨file, base, script⟩ (⟨"x", nameSpan⟩, []) ⟨v, keySpan⟩ .number
            (Store.after ops) ((Store.after ops).fold ⟨file, base, script⟩).2)
    ∧ ∀ (f : Fragment) (ops : List Store.Operation) (touched : Array VarId) (op : TokenKind)
        (span targetSpan keySpan : Span) (base key right : Expr) (p : Place),
      op.isAssign = true → place? base = some p →
      key.unparen = .literal keySpan .string (quoted quote v) (stringValue (quoted quote v)) →
      let r := (Fold.walk f (.binary span op (.index targetSpan base key) right)).run
        ⟨Store.after ops, touched⟩
      ∃ kind mid, Grows (Store.after ops) mid ∧ r.1 = .value kind
        ∧ p.Assigns f ⟨v, keySpan⟩ kind mid r.2.store := by
  refine ⟨Script.parse_quoted hquote v, fun file maxErrors => ?_, ?_⟩
  · obtain ⟨span, targetSpan, nameSpan, keySpan, valueSpan, hparse, hstands⟩ :=
      Script.parse_assignKey hquote v file maxErrors
    refine ⟨_, nameSpan, keySpan, hparse, hstands, fun ops base => ?_⟩
    rw [fold_of_isSettled rfl]
    obtain ⟨root, id, refs, hreceived⟩ := perform_received (f := ⟨file, base, _⟩)
      (s := { store := Store.after ops }) (Store.sound_after ops)
      (w := ⟨⟨"x", nameSpan⟩, [⟨v, keySpan⟩], .number⟩) (Store.knows_of_isPlain rfl _)
    exact hreceived.assigns (p := (⟨"x", nameSpan⟩, []))
  · intro f ops touched op span targetSpan keySpan base key right p hop hp hkey
    have hstep : literalStep? key = some ⟨v, keySpan⟩ := by
      rw [literalStep?, hkey, Script.stringValue_quoted hquote]
    have hplace : place? (.index targetSpan base key) = some (p.1, p.2 ++ [⟨v, keySpan⟩]) := by
      rw [place?, hstep, hp]
      rfl
    obtain ⟨kind, mid, root, id, refs, hgrows, hvalue, hreceived⟩ :=
      walk_assign_received (f := f) (s := ⟨Store.after ops, touched⟩) (Store.sound_after ops) hop
        hplace span right
    exact ⟨kind, mid, hgrows, hvalue, hreceived.assigns⟩

/-- A text that ends with a backslash, and has a quote and a line break before it. -/
theorem quoted_keys_backslash :
    IsStringQuote '"' ∧ quoted '"' "\"\n\\" = "\"\\\"\\n\\\\\""
      ∧ parse "\"\\\"\\n\\\\\"" 3 0
        = ⟨[.literal ⟨3, 0, 8⟩ .string "\"\\\"\\n\\\\\"" "\"\n\\"], []⟩
      ∧ ∃ script nameSpan keySpan, parse "x[\"\\\"\\n\\\\\"] = 1" 3 0 = ⟨script, []⟩
        ∧ Place.Assigns ⟨3, 5, script⟩ (⟨"x", nameSpan⟩, []) ⟨"\"\n\\", keySpan⟩ .number .empty
            (Store.fold .empty ⟨3, 5, script⟩).2 := by
  have hquote : IsStringQuote '"' := .inl rfl
  obtain ⟨hliteral, hkey, -⟩ := quoted_keys hquote "\"\n\\"
  obtain ⟨script, nameSpan, keySpan, hparse, -, hassigns⟩ := hkey 3 0
  exact ⟨hquote, rfl, hliteral 3 0, script, nameSpan, keySpan, hparse, hassigns [] 5⟩

end Storyline.Variables
