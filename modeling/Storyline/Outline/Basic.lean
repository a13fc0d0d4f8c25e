import Storyline.Text.Quoted
import Storyline.Markup.Walk

/-!
# The outline of a project

The headers of all files that stand at the top level or directly below another header, in the
order of reading.  A header knows its parent, so the headers below one and the top-level headers
are parts of that list; of those with the same name the last one counts.  A header is named in
diverts by its title in canonical form: small letters, digits and underscores.

Headers are numbered from 1 on; 0 stands for the top level.  A policy says among which headers the
first part of a path is looked for.
-/

namespace Storyline

/-- Names a header of an outline; 0 is none.  A word as long as there are fewer than 2^32 of them. -/
abbrev NodeId := Nat

namespace Outline

/-! ## Canonical names -/

/-- What a byte of a title becomes in a name; most become nothing. -/
def canonicalByte? (b : UInt8) : Option UInt8 :=
  if Bytes.isLetter b then some (Bytes.lowerByte b)
  else if Bytes.isDigit b || b = '_' then some b
  else if b = ' ' then some '_'
  else none

/-- The name of a header with a title. -/
def canonical (title : Bytes) : Bytes := title.filterMap canonicalByte?

/-- The names in a dotted path. -/
def splitPath (path : Bytes) : List Bytes :=
  if path.isEmpty then [] else (path.splitOnByte '.').map canonical

/-! ## Policy -/

/-- Among which headers a path starts. -/
inductive Scope where
  /-- The top-level headers of all files. -/
  | project
  /-- The top-level headers of the divert's own file. -/
  | file
deriving DecidableEq, Repr, Inhabited

namespace Scope

/-- The name of a scope in settings. -/
def name : Scope → String
  | project => "project"
  | file => "file"

/-- The scope with a name; no name means the whole project. -/
def ofName? (s : Bytes) : Option Scope :=
  if s.isEmpty || s = ("project" : Bytes) then some .project
  else if s = ("file" : Bytes) then some .file
  else none

/-- What is said of a name that no scope has. -/
def unknownMessage (s : Bytes) : Bytes :=
  "unknown divert scope " ++ Text.quoted s ++ " (want \"project\" or \"file\")"

end Scope

/-- How diverts are resolved. -/
structure Policy where
  divertScope : Scope := .project
  /-- The scope of diverts that come back. -/
  temporaryScope : Scope := .project
  /-- Whether a path that leads nowhere is tried again below the header around the divert. -/
  localFallback : Bool := false
deriving DecidableEq, Repr, Inhabited

/-- The scope of a divert. -/
def Policy.scopeFor (p : Policy) (temporary : Bool) : Scope :=
  if temporary then p.temporaryScope else p.divertScope

/-! ## Headers -/

/-- A header of an outline. -/
structure Node where
  /-- The title in canonical form. -/
  name : Bytes
  title : Bytes
  file : FileId
  /-- Where the title stands. -/
  span : Span
  /-- The header it stands below; 0 at the top level. -/
  parent : NodeId
  /-- Which of the documents it comes from, counted from 0, and where it starts in there. -/
  site : Nat × Nat
deriving DecidableEq, Repr, Inhabited

/-- Names without repetitions, in the order of their first places. -/
def firstNames (names : List Bytes) : List Bytes :=
  names.foldl (fun seen n => if seen.contains n then seen else seen ++ [n]) []

end Outline

/-- The headers of a project. -/
structure Outline where
  /-- The header with number `id` stands at `id - 1`. -/
  nodes : Array Outline.Node := #[]
  /-- How many documents were added. -/
  documents : Nat := 0
deriving DecidableEq, Repr, Inhabited

namespace Outline

open Markup (Heading Block Document)

/-! ## Building -/

/-- The node of a heading. -/
def Node.ofHeading (parent : NodeId) (file : FileId) (document : Nat) (h : Heading) : Node :=
  { name := canonical h.title, title := h.title, file, span := h.titleSpan, parent
    site := (document, h.span.start) }

mutual

/-- Adds a header and those below it. -/
def insertBlock (o : Outline) (parent : NodeId) (file : FileId) : Block → Outline
  | .header h children =>
    let node := Node.ofHeading parent file o.documents h
    insertBlocks { o with nodes := o.nodes.push node } (o.nodes.size + 1) file children
  | .paragraph _ | .code _ | .choices .. | .divert _ | .branch .. => o

/-- Adds the headers among blocks, with those below them. -/
def insertBlocks (o : Outline) (parent : NodeId) (file : FileId) : List Block → Outline
  | [] => o
  | b :: bs => insertBlocks (insertBlock o parent file b) parent file bs

end

/-- Adds the headers of a document. -/
def add (o : Outline) (d : Document) : Outline :=
  let o := o.insertBlocks 0 d.file d.blocks
  { o with documents := o.documents + 1 }

/-- The outline of documents. -/
def ofDocuments (ds : List Document) : Outline := ds.foldl add {}

/-! ## Looking up -/

/-- The header with a number. -/
def node? (o : Outline) (id : NodeId) : Option Node :=
  if id = 0 then none else o.nodes[id - 1]?

/-- The numbers of the headers that satisfy `p`, in order. -/
def select (o : Outline) (p : Node → Bool) : List NodeId :=
  (List.range o.nodes.size).filterMap fun i =>
    match o.nodes[i]? with
    | some n => if p n then some (i + 1) else none
    | none => none

/-- The names of some headers. -/
def namesOf (o : Outline) (ids : List NodeId) : List Bytes :=
  ids.filterMap fun id => (o.node? id).map (·.name)

/-- The last of some headers with a name. -/
def lastNamed? (o : Outline) (ids : List NodeId) (name : Bytes) : Option NodeId :=
  ids.reverse.find? fun id => (o.node? id).any (·.name = name)

/-- The headers directly below one; those at the top level for 0. -/
def below (o : Outline) (parent : NodeId) : List NodeId := o.select (·.parent = parent)

/-- The names of the headers directly below one, in the order of their first places. -/
def childNames (o : Outline) (parent : NodeId) : List Bytes :=
  if parent = 0 then [] else firstNames (o.namesOf (o.below parent))

/-- The names of the top-level headers, in the order of their first places. -/
def rootNames (o : Outline) : List Bytes := firstNames (o.namesOf (o.below 0))

/-- The header directly below one that has a name. -/
def child? (o : Outline) (parent : NodeId) (name : Bytes) : Option NodeId :=
  if parent = 0 then none else o.lastNamed? (o.below parent) name

/-- The top-level header with a name. -/
def root? (o : Outline) (name : Bytes) : Option NodeId := o.lastNamed? (o.below 0) name

/-- The top-level headers that a path may start with. -/
def rootsIn (o : Outline) (scope : Scope) (file : FileId) : List NodeId :=
  match scope with
  | .project => o.below 0
  | .file => o.select fun n => n.parent = 0 && n.file = file

/-- The header that a heading of a document became. -/
def nodeOf? (o : Outline) (document : Nat) (h : Heading) : Option NodeId :=
  (o.nodes.findIdx? fun n => n.site = (document, h.span.start)).map (· + 1)

/-- The dotted path of a header. -/
def path (o : Outline) (id : NodeId) : Bytes :=
  go o.nodes.size id
where
  /-- The path through at most `fuel` parents. -/
  go : (fuel : Nat) → NodeId → Bytes
    | 0, _ => []
    | fuel + 1, id =>
      match o.node? id with
      | none => []
      | some n => if n.parent = 0 then n.name else go fuel n.parent ++ "." ++ n.name

end Outline

end Storyline
