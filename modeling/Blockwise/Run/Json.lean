import Blockwise.Character.Json
import Blockwise.Program.Json
import Blockwise.Run.Basic

/-!
# Runs in JSON

The settings of a run are stored as a record all of whose fields have a
default. A trace is stored as the list of its frames.
-/

namespace Blockwise

namespace Config

def toJson (config : Config) : Json :=
  .obj [("goalX", .ofWord config.goalX), ("jumpHeight", .ofWord config.jumpHeight),
    ("recordTrace", .bool config.recordTrace)]

def fieldNames : List String := ["goalX", "jumpHeight", "recordTrace"]

def ofJson? (j : Json) : Option Config := do
  let fields ← j.fields? fieldNames 0
  let goalX ← fields.withDefault "goalX" ({} : Config).goalX Json.word?
  let jumpHeight ← fields.withDefault "jumpHeight" ({} : Config).jumpHeight Json.word?
  let recordTrace ← fields.withDefault "recordTrace" ({} : Config).recordTrace Json.bool?
  some { goalX, jumpHeight, recordTrace }

end Config

def Character.traceToJson (frames : List Character) : Json := .arr (frames.map Character.toJson)

end Blockwise
