import Blockwise.Program.Diagnostic

/-!
# Programs

A program is a forest. A node carries an instruction, and the bodies of loops
and branches are the children of their nodes.

A sequence of blocks is read as a program by matching its openers and closers
like brackets: `Program.ofBlocks` keeps a stack of the bodies that have been
begun and not yet ended. A sequence that does not nest is refused, and the
refusal names the block at fault: the first closer that ends nothing, or else
the innermost opener whose body is not ended.
-/

namespace Blockwise

structure Node where
  instruction : Instruction
  children : List Node := []

namespace Node

def tag (node : Node) : Tag := node.instruction.tag

/-- The node of a statement: nothing but its tag is kept. -/
def leaf (tag : Tag) : Node := ⟨.bare tag, []⟩

/-- What passes from the nodes of a body to the node holds of every node. -/
theorem induction {motive : Node → Prop}
    (mk : ∀ instruction children, (∀ child ∈ children, motive child) →
      motive ⟨instruction, children⟩) : ∀ node, motive node
  | ⟨instruction, children⟩ => mk instruction children fun child _ => induction mk child

end Node

abbrev Program := List Node

/-- The two ways in which a sequence fails to nest. -/
inductive NestingFault where
  /-- The body of `opener` is not ended. -/
  | unclosed (opener : Block)
  /-- `closer` ends no body. -/
  | unmatched (closer : Block)
deriving DecidableEq

namespace NestingFault

def code : NestingFault → FaultCode
  | .unclosed _ => .unclosedBody
  | .unmatched _ => .unmatchedCloser

def block : NestingFault → Block
  | .unclosed opener => opener
  | .unmatched closer => closer

def message : NestingFault → String
  | .unclosed opener =>
    "Close \"" ++ opener.tag.label ++
      "\" with an end block! Check the order of your blocks once more."
  | .unmatched _ => "The indentation doesn't line up. Check the order of your blocks."

def diagnostic (fault : NestingFault) : Diagnostic :=
  .ofCode fault.code fault.message (some fault.block.id)

end NestingFault

/-- A body that has been begun and not yet ended: its opener, and the nodes
before the opener in the enclosing body, the latest first. -/
structure OpenBody where
  opener : Block
  before : List Node

namespace Program

/-- Reads the blocks that follow. `outer` are the enclosing bodies, the
innermost first, and `body` the nodes of the current body, the latest first. -/
def read (outer : List OpenBody) (body : List Node) :
    List Block → Except NestingFault Program
  | [] =>
    match outer with
    | [] => .ok body.reverse
    | innermost :: _ => .error (.unclosed innermost.opener)
  | block :: rest =>
    match block.tag.role with
    | .opener => read (⟨block, body⟩ :: outer) [] rest
    | .closer =>
      match outer with
      | [] => .error (.unmatched block)
      | innermost :: enclosing =>
        read enclosing (⟨innermost.opener.toInstruction, body.reverse⟩ :: innermost.before) rest
    | .ordinary | .condition => read outer (.leaf block.tag :: body) rest

def ofBlocks (blocks : List Block) : Except NestingFault Program :=
  read [] [] blocks

end Program

end Blockwise
