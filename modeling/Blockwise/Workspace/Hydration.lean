import Blockwise.Json.Basic
import Blockwise.Workspace.Basic

/-!
# Hydration

A generated workspace is a JSON value of unknown quality. Hydration makes a
sequence of it that nests and begins with the start block. Each entry is taken
if it is an object whose type is a known tag, with as much of its condition and
its count as can be used (`candidate?`). Closers that end nothing are left out,
and bodies that are still open at the end are closed (`balance`). Only then do
the blocks get their identities, in order.
-/

namespace Blockwise.Hydration

/-- The condition that an entry chooses for a branch, if it is one. -/
def condition? (members : List (String × Json)) : Option Tag :=
  let text := (Json.memberOf? "conditionId" members).bind Json.string?
  ((text.bind Kind.ofTag?).filter Kind.isCondition).map Tag.known

def loopCount? (members : List (String × Json)) : Option Float :=
  (Json.memberOf? "loopCount" members).bind Json.float?

/-- The instruction of an entry with a known kind. -/
def instruction (kind : Kind) (members : List (String × Json)) : Instruction where
  tag := .known kind
  condition := if kind = .branch then condition? members else none
  loopCount := if kind = .loop then loopCount? members else none

/-- The instruction of an entry, if it is an object whose type is a known tag. -/
def candidate? (entry : Json) : Option Instruction := do
  let members ← entry.members?
  let type ← (Json.memberOf? "type" members).bind Json.string?
  let kind ← Kind.ofTag? type
  some (instruction kind members)

/-- Makes a list nest that stands inside of `opened` bodies: closers beyond them
are left out, and bodies still open at the end are closed. -/
def balance (opened : Nat) : List Instruction → List Instruction
  | [] => List.replicate opened (.bare (.known .close))
  | instruction :: rest =>
    match instruction.tag.role, opened with
    | .closer, 0 => balance 0 rest
    | .closer, opened + 1 => instruction :: balance opened rest
    | .opener, opened => instruction :: balance (opened + 1) rest
    | .ordinary, opened | .condition, opened => instruction :: balance opened rest

/-- The instructions of the entries of an array; anything else has none. -/
def instructions (raw : Json) : List Instruction :=
  balance 0 ((raw.items?.getD []).filterMap candidate?)

/-- The blocks of the entries of an array, and the supply that is left. -/
def blocks (ids : IdSupply) (raw : Json) : List Block × IdSupply :=
  let instructions := instructions raw
  (ids.number instructions, ids.skip instructions.length)

/-- Puts a start block in front, unless there is one. -/
def ensureStart (ids : IdSupply) (blocks : List Block) : List Block × IdSupply :=
  if blocks.head?.any fun block => block.tag == .known .start then (blocks, ids)
  else (⟨.bare (.known .start), ids.next⟩ :: blocks, ids.skip 1)

/-- The entries of a payload: of an object what it has under `blocks`, and
otherwise the payload itself. -/
def entries (payload : Json) : Json :=
  match payload with
  | .obj members => (Json.memberOf? "blocks" members).getD .null
  | other => other

/-- The sequence of a generated workspace, and the supply that is left. -/
def hydrate (ids : IdSupply) (payload : Json) : List Block × IdSupply :=
  let (found, ids) := blocks ids (entries payload)
  ensureStart ids found

end Blockwise.Hydration
