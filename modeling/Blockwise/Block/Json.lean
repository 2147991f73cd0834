import Blockwise.Block.Basic
import Blockwise.Json.Record

/-!
# Blocks in JSON

A tag is stored as its text. A block is stored with its identity and its tag,
and with its condition and its raw count when it has them.
-/

namespace Blockwise

def Tag.toJson (tag : Tag) : Json := .str tag.text

def Tag.ofJson? (j : Json) : Option Tag := j.string?.map Tag.ofText

def Kind.toJson (kind : Kind) : Json := .str kind.tag

def Kind.ofJson? : Json → Option Kind := Json.named? Kind.all Kind.tag

def Category.toJson (category : Category) : Json := .str category.name

def Category.ofJson? : Json → Option Category := Json.named? Category.all Category.name

def Role.toJson (role : Role) : Json := .str role.name

def Role.ofJson? : Json → Option Role := Json.named? Role.all Role.name

def Kind.entry (kind : Kind) : Json :=
  .obj [("type", kind.toJson), ("label", .str kind.label), ("category", kind.category.toJson),
    ("color", .str kind.category.color), ("role", kind.role.toJson)]

namespace Instruction

/-- The members in which the condition and the count of an instruction are
stored. -/
def payloadMembers (instruction : Instruction) : List (String × Json) :=
  Json.memberOf "conditionId" Tag.toJson instruction.condition ++
    Json.memberOf "loopCount" Json.ofFloat instruction.loopCount

/-- Reads the instruction of a record that has fields for one. -/
def ofFields? (fields : Fields) : Option Instruction := do
  let tag ← fields.required "type" Tag.ofJson?
  let condition ← fields.optional "conditionId" Tag.ofJson?
  let loopCount ← fields.optional "loopCount" Json.float?
  some { tag, condition, loopCount }

end Instruction

namespace Block

def toJson (block : Block) : Json :=
  .obj ([("id", .str block.id), ("type", block.tag.toJson)] ++ block.toInstruction.payloadMembers)

def fieldNames : List String := ["id", "type", "conditionId", "loopCount"]

def ofJson? (j : Json) : Option Block := do
  let fields ← j.fields? fieldNames 0
  let id ← fields.required "id" Json.string?
  let instruction ← Instruction.ofFields? fields
  some { instruction with id }

def listOfJson? : Json → Option (List Block) := Json.list? ofJson?

end Block

end Blockwise
