import Storyline.Proofs.Text.Lists
import Storyline.Storage.Location

/-!
# Places by their names

A place inside a project is known from the names that lead to it: `place` writes the names down, and
reading, walking up, walking down and moving a directory are operations on lists of names.  What
follows about places in the storage is said of names only.

A path is refused by counting levels, and what is not refused is cleaned by keeping names.  Counting
ends at the first segment that leads above the root (`escapes_iff`), where keeping names would go on
from the root as if nothing had happened.  `paths_stay_inside` says that the two agree: a path is
refused exactly if it starts at the root or leads above it on the way, and any other one names the
place of the names that are left of it, which is read as itself.
-/

namespace Storyline

namespace Storage

/-! ## Names -/

/-- The names are those of entries, so none of them is empty, leads up or holds a slash. -/
def Named (names : List Bytes) : Prop := ∀ n ∈ names, isEntryName n = true

/-- The place that names lead to from the root on. -/
def place (names : List Bytes) : Bytes := Bytes.join "/" names

variable {names names' : List Bytes} {n : Bytes}

theorem isEntryName_iff : isEntryName n = true ↔
    n ≠ [] ∧ n ≠ ("." : Bytes) ∧ n ≠ Path.up ∧ ('/' : UInt8) ∉ n ∧ ('\\' : UInt8) ∉ n := by
  simp [isEntryName, and_assoc]

theorem named_nil : Named [] := by simp [Named]

theorem named_append_iff : Named (names ++ names') ↔ Named names ∧ Named names' := by
  simp only [Named, List.mem_append, or_imp, forall_and]

theorem named_singleton_iff : Named [n] ↔ isEntryName n = true := by simp [Named]

theorem Named.of_front (h : Named names) {shorter : List Bytes} (hp : shorter <+: names) :
    Named shorter := fun n hn => h n (hp.subset hn)

/-- The names can stand as segments of a path: none of them is empty, is a dot or two, or holds a
slash.  Unlike those of entries they may hold backslashes. -/
def Segmented (names : List Bytes) : Prop :=
  ∀ n ∈ names, n ≠ [] ∧ n ≠ ("." : Bytes) ∧ n ≠ Path.up ∧ ('/' : UInt8) ∉ n

theorem Named.segmented (h : Named names) : Segmented names := by
  intro n hn
  obtain ⟨hempty, hdot, hup, hslash, -⟩ := isEntryName_iff.mp (h n hn)
  exact ⟨hempty, hdot, hup, hslash⟩

theorem slash_eq : ("/" : Bytes) = [('/' : UInt8)] := rfl

theorem place_nil : place [] = [] := rfl

theorem place_singleton (n : Bytes) : place [n] = n := rfl

/-- More names go behind those that are there, each with a slash in front of it. -/
theorem place_append (hne : names ≠ []) (more : List Bytes) :
    place (names ++ more) = place names ++ more.flatMap (("/" : Bytes) ++ ·) :=
  Bytes.join_append _ hne more

theorem place_concat (hne : names ≠ []) (n : Bytes) :
    place (names ++ [n]) = place names ++ ('/' : UInt8) :: n := by
  rw [place, Bytes.join_concat _ hne, List.append_assoc]
  rfl

theorem place_cons (n : Bytes) (hne : names ≠ []) :
    place (n :: names) = n ++ ('/' : UInt8) :: place names := by
  rw [place, Bytes.join_cons_of_ne_nil _ _ hne, List.append_assoc]
  rfl

/-- The names of a place can be read off it. -/
theorem Segmented.segments_place (h : Segmented names) (hne : names ≠ []) :
    Path.segments (place names) = names :=
  Bytes.splitOnByte_join hne fun n hn => (h n hn).2.2.2

theorem segments_place (hne : names ≠ []) (h : Named names) :
    Path.segments (place names) = names := h.segmented.segments_place hne

theorem Segmented.place_ne_nil (h : Segmented names) (hne : names ≠ []) : place names ≠ [] := by
  obtain ⟨n, ns, rfl⟩ := List.exists_cons_of_ne_nil hne
  have hn := (h n List.mem_cons_self).1
  rw [place, Bytes.join_cons]
  simp [hn]

theorem place_ne_nil (hne : names ≠ []) (h : Named names) : place names ≠ [] :=
  h.segmented.place_ne_nil hne

theorem place_eq_nil_iff (h : Named names) : place names = [] ↔ names = [] := by
  constructor
  · intro hp
    by_contra hne
    exact place_ne_nil hne h hp
  · rintro rfl
    rfl

theorem place_inj (h : Named names) (h' : Named names') :
    place names = place names' ↔ names = names' := by
  refine ⟨fun heq => ?_, fun heq => heq ▸ rfl⟩
  by_cases hne : names = []
  · subst hne
    exact ((place_eq_nil_iff h').mp heq.symm).symm
  · have hne' : names' ≠ [] := by
      rintro rfl
      exact place_ne_nil hne h heq
    rw [← segments_place hne h, heq, segments_place hne' h']

theorem mem_place {b : UInt8} (hb : b ∈ place names) : b = ('/' : UInt8) ∨ ∃ n ∈ names, b ∈ n := by
  cases names with
  | nil => simp [place_nil] at hb
  | cons n names =>
    rw [place, Bytes.join_cons, slash_eq] at hb
    simp only [List.mem_append, List.mem_flatMap, List.mem_cons, List.not_mem_nil, or_false] at hb
    rcases hb with hb | ⟨x, hx, rfl | hb⟩
    · exact .inr ⟨n, List.mem_cons_self, hb⟩
    · exact .inl rfl
    · exact .inr ⟨x, List.mem_cons_of_mem _ hx, hb⟩

/-! ## Reading a path -/

/-- The names that are left of a path when its next segment is read: an empty segment and a single
dot add nothing, and two dots take back the last name, if there is one. -/
def follow (kept : List Bytes) (s : Bytes) : List Bytes :=
  if s = [] ∨ s = ("." : Bytes) then kept
  else if s = Path.up then kept.dropLast
  else kept ++ [s]

/-- The names that are left of the segments of a path, read from left to right. -/
def followed (segments : List Bytes) : List Bytes := segments.foldl follow []

theorem follow_name {kept : List Bytes} (hempty : n ≠ []) (hdot : n ≠ ("." : Bytes))
    (hup : n ≠ Path.up) : follow kept n = kept ++ [n] := by
  rw [follow, if_neg (not_or.mpr ⟨hempty, hdot⟩), if_neg hup]

theorem mem_follow {kept : List Bytes} {s : Bytes} (h : n ∈ follow kept s) :
    n ∈ kept ∨ n = s ∧ n ≠ [] ∧ n ≠ ("." : Bytes) ∧ n ≠ Path.up := by
  rw [follow] at h
  split at h
  · exact .inl h
  · next hs =>
    obtain ⟨hempty, hdot⟩ := not_or.mp hs
    split at h
    · exact .inl (List.dropLast_subset _ h)
    · next hup =>
      refine (List.mem_append.mp h).imp_right fun hn => ?_
      obtain rfl := List.mem_singleton.mp hn
      exact ⟨rfl, hempty, hdot, hup⟩

/-- Whatever is left of a path is one of its segments, and no empty one and no dots. -/
theorem mem_foldl_follow {kept segments : List Bytes} (h : n ∈ segments.foldl follow kept) :
    n ∈ kept ∨ n ∈ segments ∧ n ≠ [] ∧ n ≠ ("." : Bytes) ∧ n ≠ Path.up := by
  induction segments generalizing kept with
  | nil => exact .inl h
  | cons s segments ih =>
    rcases ih h with hkept | ⟨hn, hname⟩
    · refine (mem_follow hkept).imp_right fun hn => ?_
      obtain ⟨rfl, hname⟩ := hn
      exact ⟨List.mem_cons_self, hname⟩
    · exact .inr ⟨List.mem_cons_of_mem _ hn, hname⟩

theorem mem_followed {segments : List Bytes} (h : n ∈ followed segments) :
    n ∈ segments ∧ n ≠ [] ∧ n ≠ ("." : Bytes) ∧ n ≠ Path.up :=
  (mem_foldl_follow h).resolve_left List.not_mem_nil

theorem followed_named (h : Named names) : followed names = names := by
  have hall (kept : List Bytes) : names.foldl follow kept = kept ++ names := by
    induction names generalizing kept with
    | nil => simp
    | cons n names ih =>
      obtain ⟨hempty, hdot, hup, -⟩ := isEntryName_iff.mp (h n List.mem_cons_self)
      rw [List.foldl_cons, follow_name hempty hdot hup,
        ih fun x hx => h x (List.mem_cons_of_mem _ hx)]
      simp
  exact hall []

/-- Cleaning a path from the root keeps the same names, last name first. -/
theorem keep_reverse {kept : List Bytes} (hkept : Path.up ∉ kept) (s : Bytes) :
    Path.keep true kept.reverse s = (follow kept s).reverse := by
  unfold Path.keep follow
  simp only [Bool.or_eq_true, decide_eq_true_eq]
  split
  · rfl
  split
  · rcases List.eq_nil_or_concat kept with rfl | ⟨front, last, rfl⟩
    · rfl
    · rw [List.concat_eq_append] at hkept ⊢
      have hlast : last ≠ Path.up := fun h => hkept (by simp [h])
      simp [hlast]
  · simp

theorem foldl_keep_reverse {kept : List Bytes} (hkept : Path.up ∉ kept) (segments : List Bytes) :
    segments.foldl (Path.keep true) kept.reverse = (segments.foldl follow kept).reverse := by
  induction segments generalizing kept with
  | nil => rfl
  | cons s segments ih =>
    rw [List.foldl_cons, List.foldl_cons, keep_reverse hkept, ih]
    exact fun h => (mem_follow h).elim hkept fun hup => hup.2.2.2 rfl

/-- A path from the root is cleaned to the place of the names that are left of it. -/
theorem clean_from_root (p : Bytes) :
    Path.clean (("/" : Bytes) ++ p) = ("/" : Bytes) ++ place (followed (Path.segments p)) := by
  have hsegments : Path.segments (("/" : Bytes) ++ p) = [] :: Path.segments p :=
    Bytes.splitOnByte_append [] p
  have hnormal : Path.normalSegments (("/" : Bytes) ++ p) = followed (Path.segments p) := by
    rw [Path.normalSegments, hsegments, List.foldl_cons]
    show (List.foldl (Path.keep true) ([] : List Bytes).reverse (Path.segments p)).reverse = _
    rw [foldl_keep_reverse List.not_mem_nil, List.reverse_reverse, followed]
  rw [Path.clean, hnormal]
  rfl

/-- The place of a path that does not lead out of the project has the names that are left of it. -/
theorem locate?_eq (path : Bytes) :
    let p := Bytes.replaceByte '\\' "/" path
    locate? path = if Path.isRooted p then none
      else if escapes 0 (Path.segments p) then none
      else some (place (followed (Path.segments p))) := by
  dsimp only [locate?]
  rw [clean_from_root]
  rfl

theorem escapes_cons (depth : Nat) (s : Bytes) (rest : List Bytes) :
    escapes depth (s :: rest) = if s = [] || s = ("." : Bytes) then escapes depth rest
      else if s = Path.up then
        match depth with
        | 0 => true
        | depth + 1 => escapes depth rest
      else escapes (depth + 1) rest := by
  cases depth <;> rfl

theorem escapes_named (depth : Nat) (h : Named names) : escapes depth names = false := by
  induction names generalizing depth with
  | nil => rfl
  | cons n names ih =>
    obtain ⟨hempty, hdot, hup, -⟩ := isEntryName_iff.mp (h n List.mem_cons_self)
    rw [escapes_cons, if_neg (by simp [hempty, hdot]), if_neg hup]
    exact ih _ fun x hx => h x (List.mem_cons_of_mem _ hx)

theorem Segmented.head?_place_ne (h : Segmented names) :
    (place names).head? ≠ some ('/' : UInt8) := by
  cases names with
  | nil => simp [place_nil]
  | cons n names =>
    obtain ⟨hempty, -, -, hslash⟩ := h n List.mem_cons_self
    obtain ⟨b, n, rfl⟩ := List.exists_cons_of_ne_nil hempty
    rw [place, Bytes.join_cons]
    intro hhead
    obtain rfl : b = ('/' : UInt8) := by simpa using hhead
    exact hslash List.mem_cons_self

theorem head?_place_ne (h : Named names) : (place names).head? ≠ some ('/' : UInt8) :=
  h.segmented.head?_place_ne

theorem backslash_not_mem_place (h : Named names) : ('\\' : UInt8) ∉ place names := by
  intro hb
  rcases mem_place hb with hslash | ⟨n, hn, hb⟩
  · exact absurd hslash (by decide)
  · exact (isEntryName_iff.mp (h n hn)).2.2.2.2 hb

/-- A place is read as itself. -/
theorem locate?_place (h : Named names) : locate? (place names) = some (place names) := by
  rw [locate?_eq, Bytes.replaceByte_of_not_mem (backslash_not_mem_place h)]
  simp only [Path.isRooted, head?_place_ne h, decide_false, Bool.false_eq_true, if_false]
  by_cases hne : names = []
  · subst hne
    rfl
  · rw [segments_place hne h, escapes_named 0 h, followed_named h]
    rfl

/-- Without backslashes, what is left of a path are names of entries. -/
theorem named_followed {p : Bytes} (h : ('\\' : UInt8) ∉ p) : Named (followed (Path.segments p)) := by
  intro n hn
  obtain ⟨hmem, hempty, hdot, hup⟩ := mem_followed hn
  refine isEntryName_iff.mpr ⟨hempty, hdot, hup, fun hb => ?_, fun hb => ?_⟩
  · exact (Bytes.mem_of_mem_splitOnByte hmem _ hb).2 rfl
  · exact h (Bytes.mem_of_mem_splitOnByte hmem _ hb).1

theorem backslash_not_mem_replaceByte (path : Bytes) :
    ('\\' : UInt8) ∉ Bytes.replaceByte '\\' "/" path := by
  intro hb
  obtain ⟨c, -, hc⟩ := List.mem_flatMap.mp hb
  split at hc
  · exact absurd hc (by decide)
  · next hne => exact hne (List.mem_singleton.mp hc).symm

/-- Whatever a path names is the place of some names. -/
theorem exists_place_of_locate? {path p : Bytes} (h : locate? path = some p) :
    ∃ names, Named names ∧ p = place names := by
  rw [locate?_eq] at h
  split at h
  · cases h
  split at h
  · cases h
  · cases h
    exact ⟨_, named_followed (backslash_not_mem_replaceByte path), rfl⟩

/-! ## Up, down and across -/

theorem child_place (h : Named names) (n : Bytes) :
    child (place names) n = place (names ++ [n]) := by
  by_cases hne : names = []
  · subst hne
    rfl
  · rw [child, if_neg (by simpa using place_ne_nil hne h), place_concat hne, slash_eq]
    simp

theorem child_place_place (h : Named names) {more : List Bytes} (hne : more ≠ []) :
    child (place names) (place more) = place (names ++ more) := by
  obtain ⟨n, more, rfl⟩ := List.exists_cons_of_ne_nil hne
  by_cases hnames : names = []
  · subst hnames
    rfl
  · rw [child, if_neg (by simpa using place_ne_nil hnames h), place_append hnames,
      List.flatMap_cons, place, place, Bytes.join_cons, List.append_assoc, List.append_assoc]

theorem Segmented.foldl_keep {rooted : Bool} (h : Segmented names) (kept : List Bytes) :
    names.foldl (Path.keep rooted) kept = names.reverse ++ kept := by
  induction names generalizing kept with
  | nil => rfl
  | cons n names ih =>
    obtain ⟨hempty, hdot, hup, -⟩ := h n List.mem_cons_self
    have hkeep : Path.keep rooted kept n = n :: kept := by
      unfold Path.keep
      rw [if_neg (by simp [hempty, hdot]), if_neg hup]
    rw [List.foldl_cons, hkeep, ih fun x hx => h x (List.mem_cons_of_mem _ hx)]
    simp

/-- A path of segments is clean. -/
theorem Segmented.clean_place (h : Segmented names) (hne : names ≠ []) :
    Path.clean (place names) = place names := by
  have hrooted : Path.isRooted (place names) = false := decide_eq_false h.head?_place_ne
  have hnormal : Path.normalSegments (place names) = names := by
    rw [Path.normalSegments, h.segments_place hne, h.foldl_keep, List.append_nil,
      List.reverse_reverse]
  rw [Path.clean, hnormal, hrooted]
  show (if (place names).isEmpty then _ else place names) = place names
  rw [if_neg (by simpa using h.place_ne_nil hne)]

/-- A rooted path of names, with a slash at its end, is cleaned of that slash. -/
theorem clean_rooted (h : Named names) :
    Path.clean (("/" : Bytes) ++ names.flatMap (· ++ ("/" : Bytes)))
      = ("/" : Bytes) ++ place names := by
  have hsegments : Path.segments (("/" : Bytes) ++ names.flatMap (· ++ ("/" : Bytes)))
      = [] :: (names ++ [[]]) := by
    have hbody : Path.segments (names.flatMap (· ++ ("/" : Bytes))) = names ++ [[]] := by
      induction names with
      | nil => rfl
      | cons n names ih =>
        have hn := (isEntryName_iff.mp (h n List.mem_cons_self)).2.2.2.1
        have hih := ih fun x hx => h x (List.mem_cons_of_mem _ hx)
        rw [Path.segments] at hih ⊢
        rw [List.flatMap_cons, slash_eq, List.append_assoc, List.singleton_append,
          Bytes.splitOnByte_append, Bytes.splitOnByte_of_not_mem hn, ← slash_eq, hih]
        rfl
    rw [← hbody]
    exact Bytes.splitOnByte_append [] _
  have hnormal : Path.normalSegments (("/" : Bytes) ++ names.flatMap (· ++ ("/" : Bytes)))
      = names := by
    rw [Path.normalSegments, hsegments, List.foldl_cons, List.foldl_append,
      show Path.keep _ [] [] = [] from rfl, h.segmented.foldl_keep]
    simp [Path.keep]
  rw [Path.clean, hnormal]
  rfl

/-- The directory of a place is the place of all but its last name. -/
theorem parent_place (h : Named (names ++ [n])) : parent (place (names ++ [n])) = place names := by
  obtain ⟨hnames, hn⟩ := named_append_iff.mp h
  have hfront : ("/" : Bytes) ++ place (names ++ [n])
      = (("/" : Bytes) ++ names.flatMap (· ++ ("/" : Bytes))) ++ n := by
    rw [List.append_assoc, List.append_cancel_left_eq]
    clear h hn
    induction names with
    | nil => rfl
    | cons x names ih =>
      rw [List.cons_append, place_cons x (by simp),
        ih fun y hy => hnames y (List.mem_cons_of_mem _ hy), List.flatMap_cons, slash_eq]
      simp
  have hlast : (Path.segments (("/" : Bytes) ++ place (names ++ [n]))).getLastD [] = n := by
    have hsegments : Path.segments (("/" : Bytes) ++ place (names ++ [n]))
        = [] :: Path.segments (place (names ++ [n])) := Bytes.splitOnByte_append [] _
    rw [hsegments, segments_place (by simp) h, ← List.cons_append]
    simp only [List.getLastD_eq_getLast?, List.getLast?_concat, Option.getD_some]
  rw [parent, Path.dir, hlast, hfront]
  simp only [List.length_append, Nat.add_sub_cancel]
  rw [← List.length_append, List.take_left, clean_rooted hnames]
  rfl

theorem parent_nil : parent [] = [] := by decide

theorem trimRight_place (h : Named names) :
    (place names).trimRight (· = ('/' : UInt8)) = place names := by
  rcases List.eq_nil_or_concat names with rfl | ⟨front, n, rfl⟩
  · rfl
  · rw [List.concat_eq_append] at h ⊢
    obtain ⟨hempty, -, -, hslash, -⟩ :=
      isEntryName_iff.mp (named_singleton_iff.mp (named_append_iff.mp h).2)
    have hlast : ∃ start, ∃ b ∈ n, place (front ++ [n]) = start ++ [b] := by
      obtain ⟨start, b, rfl⟩ := (List.eq_nil_or_concat n).resolve_left hempty
      refine ⟨place (front ++ [start]), b, by simp, ?_⟩
      by_cases hfront : front = []
      · subst hfront
        simp [place_singleton]
      · rw [place_concat hfront, place_concat hfront]
        simp
    obtain ⟨start, b, hb, heq⟩ := hlast
    have hne : b ≠ ('/' : UInt8) := fun hb' => hslash (hb' ▸ hb)
    rw [heq, Bytes.trimRight]
    simp [hne]

theorem trim_place (h : Named names) : (place names).trim (· = ('/' : UInt8)) = place names := by
  rw [Bytes.trim, trimRight_place h, Bytes.trimLeft]
  have hhead := head?_place_ne h
  cases hplace : place names with
  | nil => rfl
  | cons b rest =>
    rw [hplace] at hhead
    rw [List.dropWhile_cons, if_neg (by simpa using hhead)]

theorem base_place (h : Named (names ++ [n])) : Path.base (place (names ++ [n])) = n := by
  have hne := place_ne_nil (by simp) h
  rw [Path.base, if_neg (by simpa using hne)]
  simp only [trimRight_place h]
  rw [if_neg (by simpa using hne), segments_place (by simp) h]
  simp [List.getLastD_eq_getLast?]

/-- The last segment of a path is never empty. -/
theorem base_ne_nil (p : Bytes) : Path.base p ≠ [] := by
  rw [Path.base]
  dsimp only
  split
  · decide
  · split
    · decide
    · next hne =>
      rw [List.isEmpty_iff] at hne
      obtain ⟨front, b, hfront⟩ := (List.eq_nil_or_concat _).resolve_left hne
      rw [List.concat_eq_append] at hfront
      have hb : b ≠ ('/' : UInt8) := by
        have hhead := List.head?_dropWhile_not (fun x => decide (x = ('/' : UInt8))) p.reverse
        have hdrop : p.reverse.dropWhile (fun x => decide (x = ('/' : UInt8)))
            = b :: front.reverse := by
          rw [← List.reverse_inj, List.reverse_cons, List.reverse_reverse]
          exact hfront
        rw [hdrop] at hhead
        simpa using hhead
      obtain ⟨front', hlast⟩ := Bytes.getLastD_splitOnByte hb front
      rw [hfront, Path.segments, hlast]
      simp

/-- A place is in a directory under a name if the names end in it. -/
theorem parent_base_iff (hne : names' ≠ []) (h' : Named names') (h : Named names) :
    parent (place names') = place names ∧ Path.base (place names') = n ↔ names' = names ++ [n] := by
  obtain ⟨front, last, rfl⟩ := (List.eq_nil_or_concat names').resolve_left hne
  rw [List.concat_eq_append] at h' ⊢
  rw [parent_place h', base_place h', place_inj (named_append_iff.mp h').1 h]
  simp

/-- A place is inside a directory if its names go on from those of the directory. -/
theorem isInside_place (hne : names ≠ []) (h : Named names) (h' : Named names') :
    isInside (place names) (place names') = true ↔ ∃ more, more ≠ [] ∧ names' = names ++ more := by
  rw [isInside, List.isPrefixOf_iff_prefix]
  constructor
  · rintro ⟨rest, heq⟩
    rw [slash_eq, List.append_assoc, List.singleton_append] at heq
    have hne' : names' ≠ [] := by
      rintro rfl
      simp [place_nil] at heq
    have hsegments := segments_place hne' h'
    rw [← heq, Path.segments, Bytes.splitOnByte_append, ← Path.segments, ← Path.segments,
      segments_place hne h] at hsegments
    exact ⟨Path.segments rest, Bytes.splitOnByte_ne_nil _ _, hsegments.symm⟩
  · rintro ⟨more, hmore, rfl⟩
    obtain ⟨x, xs, rfl⟩ := List.exists_cons_of_ne_nil hmore
    rw [place_append hne, List.flatMap_cons, List.append_assoc]
    exact ⟨_, by rw [List.append_assoc]⟩

variable {source target q : List Bytes}

/-- The names of what had names before `source` became `target`. -/
def moved (source target q : List Bytes) : List Bytes :=
  if source <+: q then target ++ q.drop source.length else q

theorem moved_append (source target more : List Bytes) :
    moved source target (source ++ more) = target ++ more := by
  rw [moved, if_pos (List.prefix_append _ _), List.drop_left]

theorem moved_of_not_front (h : ¬ source <+: q) :
    moved source target q = q := if_neg h

theorem moved_self (source q : List Bytes) : moved source source q = q := by
  by_cases hp : source <+: q
  · obtain ⟨more, rfl⟩ := hp
    exact moved_append _ _ _
  · exact moved_of_not_front hp

theorem named_moved (ht : Named target) (hq : Named q) :
    Named (moved source target q) := by
  unfold moved
  split
  · exact named_append_iff.mpr ⟨ht, fun x hx => hq x (List.mem_of_mem_drop hx)⟩
  · exact hq

theorem append_moved (front : List Bytes) :
    front ++ moved source target q = moved (front ++ source) (front ++ target) (front ++ q) := by
  by_cases hp : source <+: q
  · obtain ⟨more, rfl⟩ := hp
    rw [moved_append, ← List.append_assoc, ← List.append_assoc, moved_append]
  · rw [moved_of_not_front hp, moved_of_not_front]
    rwa [List.prefix_append_right_inj]

theorem moved_concat (h : source ≠ q ++ [n]) :
    moved source target (q ++ [n]) = moved source target q ++ [n] := by
  by_cases hp : source <+: q
  · obtain ⟨more, rfl⟩ := hp
    rw [List.append_assoc, moved_append, moved_append, List.append_assoc]
  · have hp' : ¬ source <+: q ++ [n] := fun hp' =>
      (List.prefix_concat_iff.mp hp').elim h hp
    rw [moved_of_not_front hp, moved_of_not_front hp']

/-- Moving a place from one directory to another changes the names in front. -/
theorem move_place (hne : names ≠ []) {target : List Bytes} (ht : target ≠ []) (more : List Bytes) :
    place target ++ (place (names ++ more)).drop (place names).length = place (target ++ more) := by
  rw [place_append hne, List.drop_left, place_append ht]

/-! ## Paths that lead out -/

/-- Whether a segment leads one level down. -/
def leadsDown (s : Bytes) : Bool := s != [] && s != ("." : Bytes) && s != Path.up

theorem leadsDown_iff {s : Bytes} :
    leadsDown s = true ↔ s ≠ [] ∧ s ≠ ("." : Bytes) ∧ s ≠ Path.up := by
  simp [leadsDown, and_assoc]

/-- Some beginning of the segments leads up more often than down. -/
def LeadsOut (segments : List Bytes) : Prop :=
  ∃ front, front <+: segments ∧ front.countP leadsDown < front.count Path.up

/-- What holds of some beginning of a list, but not of the empty one, holds of one that starts as
the list does. -/
theorem exists_prefix_cons {s : Bytes} {rest : List Bytes} {P : List Bytes → Prop} (hnil : ¬ P []) :
    (∃ front, front <+: s :: rest ∧ P front) ↔ ∃ front, front <+: rest ∧ P (s :: front) := by
  constructor
  · rintro ⟨front, hprefix, hP⟩
    rcases List.prefix_cons_iff.mp hprefix with rfl | ⟨front, rfl, hrest⟩
    · exact absurd hP hnil
    · exact ⟨front, hrest, hP⟩
  · rintro ⟨front, hprefix, hP⟩
    exact ⟨s :: front, List.cons_prefix_cons.mpr ⟨rfl, hprefix⟩, hP⟩

/-- From a place some levels below the root the segments lead above it if some beginning of them
leads up that much more often than down. -/
theorem escapes_iff {depth : Nat} {segments : List Bytes} : escapes depth segments = true ↔
    ∃ front, front <+: segments ∧ depth + front.countP leadsDown < front.count Path.up := by
  induction segments generalizing depth with
  | nil => simp [escapes, List.prefix_nil]
  | cons s rest ih =>
    rw [escapes_cons, exists_prefix_cons (by simp)]
    by_cases hstay : s = [] ∨ s = ("." : Bytes)
    · have hup : s ≠ Path.up := by rcases hstay with rfl | rfl <;> decide
      have hdown : ¬ leadsDown s = true := by rcases hstay with rfl | rfl <;> decide
      rw [if_pos (by simpa using hstay), ih]
      simp only [List.countP_cons_of_neg hdown, List.count_cons_of_ne hup]
    · rw [if_neg (by simpa using hstay)]
      by_cases hup : s = Path.up
      · subst hup
        have hdown : ¬ leadsDown Path.up = true := by decide
        rw [if_pos rfl]
        simp only [List.countP_cons_of_neg hdown, List.count_cons_self]
        cases depth with
        | zero => exact iff_of_true rfl ⟨[], List.nil_prefix, Nat.zero_lt_one⟩
        | succ depth =>
          rw [ih]
          exact exists_congr fun front => and_congr_right fun _ => by omega
      · obtain ⟨hempty, hdot⟩ := not_or.mp hstay
        have hdown : leadsDown s = true := leadsDown_iff.mpr ⟨hempty, hdot, hup⟩
        rw [if_neg hup, ih]
        simp only [List.countP_cons_of_pos hdown, List.count_cons_of_ne hup]
        exact exists_congr fun front => and_congr_right fun _ => by omega

theorem escapes_root_iff {segments : List Bytes} :
    escapes 0 segments = true ↔ LeadsOut segments := by
  simp only [escapes_iff, LeadsOut, Nat.zero_add]

/-! ## Paths that stay inside -/

/-- A path is refused exactly if, backslashes read as slashes, it starts at the root or some beginning
of its segments leads up more often than down.  Any other one names the place of the names that are
left of its segments from left to right: none of them is empty, a dot or two, the place does not
start with a slash, and it is read as itself. -/
theorem paths_stay_inside (path : Bytes) :
    let p := Bytes.replaceByte '\\' "/" path
    let names := followed (Path.segments p)
    (locate? path = none ↔ Path.isRooted p = true ∨ LeadsOut (Path.segments p)) ∧
    ∀ q, locate? path = some q →
      q = Bytes.join "/" names ∧ (names ≠ [] → Path.segments q = names) ∧
      (∀ n ∈ names, n ≠ [] ∧ n ≠ ("." : Bytes) ∧ n ≠ Path.up) ∧ q.head? ≠ some ('/' : UInt8) ∧
      locate? q = some q := by
  intro p names
  have hnamed : Named names := named_followed (backslash_not_mem_replaceByte path)
  have heq : locate? path = if Path.isRooted p then none
      else if escapes 0 (Path.segments p) then none else some (place names) := locate?_eq path
  constructor
  · rw [heq, ← escapes_root_iff]
    by_cases hrooted : Path.isRooted p = true
    · simp [hrooted]
    · by_cases hescapes : escapes 0 (Path.segments p) = true
      · simp [hescapes]
      · simp [hrooted, hescapes]
  · intro q hq
    obtain rfl : q = place names := by
      rw [heq] at hq
      split at hq
      · cases hq
      split at hq
      · cases hq
      · exact (Option.some.inj hq).symm
    refine ⟨rfl, fun hne => segments_place hne hnamed, fun n hn => ?_, head?_place_ne hnamed,
      locate?_place hnamed⟩
    exact (mem_followed hn).2

/-- Dots and double slashes go, and what was gone down is gone up again. -/
theorem paths_stay_inside_back_up :
    locate? "./a//b\\..\\c/" = some "a/c" ∧ followed ([".", "a", "", "b", "..", "c", ""]) = ["a", "c"] ∧
      locate? "a/c" = some "a/c" := by
  have hplace : locate? "./a//b\\..\\c/" = some "a/c" := by decide
  obtain ⟨-, -, -, -, hagain⟩ := (paths_stay_inside "./a//b\\..\\c/").2 "a/c" hplace
  exact ⟨hplace, by decide, hagain⟩

end Storage

end Storyline
