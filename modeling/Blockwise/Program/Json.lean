import Blockwise.Block.Json
import Blockwise.Program.Basic

/-!
# Programs in JSON

A node is stored with its tag, the list of its children, and its condition and
its raw count when it has them. A diagnostic is stored with its code, its
category, its message, and the block at fault when there is one.
-/

namespace Blockwise

namespace Node

mutual

def toJson : Node → Json
  | ⟨instruction, children⟩ =>
    .obj ([("type", instruction.tag.toJson), ("children", .arr (listToJson children))] ++
      instruction.payloadMembers)

def listToJson : List Node → List Json
  | [] => []
  | node :: rest => node.toJson :: listToJson rest

end

def fieldNames : List String := ["type", "children", "conditionId", "loopCount"]

def ofJson? (j : Json) : Option Node :=
  match _hf : j.fields? fieldNames 0 with
  | none => none
  | some fields => do
    let instruction ← Instruction.ofFields? fields
    let children ←
      match _hc : fields.lookup "children" with
      | none => some []
      | some list =>
        match _hi : list.items? with
        | none => none
        | some items => items.attach.mapM fun item => ofJson? item.1
    some ⟨instruction, children⟩
termination_by sizeOf j
decreasing_by
  have h₁ := Json.sizeOf_lt_of_field _hf _hc
  have h₂ := Json.sizeOf_lt_of_items _hi item.2
  omega

end Node

namespace Program

def toJson (program : Program) : Json := .arr (Node.listToJson program)

def ofJson? : Json → Option Program := Json.list? Node.ofJson?

end Program

def FaultCategory.toJson (category : FaultCategory) : Json := .str category.name

def FaultCategory.ofJson? : Json → Option FaultCategory :=
  Json.named? FaultCategory.all FaultCategory.name

def FaultCode.toJson (code : FaultCode) : Json := .ofNat code.value.toNat

def FaultCode.ofJson? (j : Json) : Option FaultCode := j.halfWord?.map FaultCode.mk

namespace Diagnostic

def toJson (d : Diagnostic) : Json :=
  .obj ([("code", d.code.toJson), ("category", d.category.toJson), ("message", .str d.message)] ++
    Json.memberOf "blockId" Json.str d.block)

def fieldNames : List String := ["code", "category", "message", "blockId"]

def ofJson? (j : Json) : Option Diagnostic := do
  let fields ← j.fields? fieldNames 4
  let code ← fields.required "code" FaultCode.ofJson?
  let category ← fields.required "category" FaultCategory.ofJson?
  let message ← fields.required "message" Json.string?
  let block ← fields.optional "blockId" Json.string?
  some { code, category, message, block }

end Diagnostic

end Blockwise
