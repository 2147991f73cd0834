import Blockwise.Block.LoopCount
import Blockwise.Block.Tag

/-!
# Instructions and blocks

What a block says is its `Instruction`: a tag and, for some tags, a condition or
a count. A placed block is an instruction with an identity. Nothing but the
editor looks at identities, so the tree, the interpreter and the repair of
generated sequences are described in terms of instructions.

Fresh identities come from a supply that numbers them consecutively.
-/

namespace Blockwise

/-- What a block says: its tag, the condition chosen for it, and its raw loop
count. Either of the last two may be present on any block; only a branch has a
use for the condition and only a loop for the count. -/
structure Instruction where
  tag : Tag
  condition : Option Tag := none
  loopCount : Option Float := none
deriving DecidableEq

namespace Instruction

/-- The instruction with nothing but a tag. -/
def bare (tag : Tag) : Instruction := { tag }

def count (instruction : Instruction) : Nat := LoopCount.normalize instruction.loopCount

/-- What is written on a block; a loop shows its count. -/
def label (instruction : Instruction) : String :=
  if instruction.tag = .known .loop then LoopCount.label instruction.count
  else instruction.tag.label

end Instruction

abbrev BlockId := String

/-- A block in a sequence: an instruction with an identity. -/
structure Block extends Instruction where
  id : BlockId
deriving DecidableEq

/-- A source of fresh identities, which knows how many it has issued. It counts
in a 64-bit word, and begins again at zero when that is used up. -/
structure IdSupply where
  issued : UInt64 := 0
deriving DecidableEq

namespace IdSupply

/-- The `n`-th identity of a supply, counted from one. -/
def nth (n : Nat) : BlockId := s!"block-{n}"

def next (ids : IdSupply) : BlockId := nth (ids.issued + 1).toNat

/-- The supply after `n` further identities were issued. -/
def skip (ids : IdSupply) (n : Nat) : IdSupply := ⟨ids.issued + .ofNat n⟩

/-- Gives consecutive fresh identities to the instructions of a list. -/
def number (ids : IdSupply) : List Instruction → List Block
  | [] => []
  | instruction :: rest => ⟨instruction, ids.next⟩ :: (ids.skip 1).number rest

@[simp] theorem number_nil (ids : IdSupply) : ids.number [] = [] := rfl

theorem number_cons (ids : IdSupply) (instruction : Instruction) (rest : List Instruction) :
    ids.number (instruction :: rest) =
      ⟨instruction, ids.next⟩ :: (ids.skip 1).number rest := rfl

@[simp] theorem map_toInstruction_number (ids : IdSupply) (instructions : List Instruction) :
    (ids.number instructions).map Block.toInstruction = instructions := by
  induction instructions generalizing ids with
  | nil => rfl
  | cons instruction rest ih => simp [number_cons, ih]

@[simp] theorem length_number (ids : IdSupply) (instructions : List Instruction) :
    (ids.number instructions).length = instructions.length := by
  rw [← List.length_map (f := Block.toInstruction), map_toInstruction_number]

end IdSupply

end Blockwise
