import Storyline.Json.Basic
import Storyline.Variables.Snapshot

/-!
# Snapshots as data

The entries of a snapshot as JSON; the properties of a variable are left out if it has none.
-/

namespace Storyline.Variables.Entry

mutual

/-- An entry as JSON. -/
def toJson : Entry → Json
  | ⟨name, kind, conflict, assignments, props⟩ =>
    .record ([("name", .text name), ("kind", .text kind.name), ("conflict", .bool conflict),
        ("assignments", .nat assignments)]
      ++ if props.isEmpty then [] else [("props", .array (toJsonAll props))])

/-- Entries as JSON. -/
def toJsonAll : List Entry → List Json
  | [] => []
  | e :: es => e.toJson :: toJsonAll es

end

end Storyline.Variables.Entry
