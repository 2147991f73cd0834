import Blockwise.Proofs.Program.Flatten

/-!
# The nodes of a program

`Program.preorder` lists the nodes of a program at every depth, in the order in
which they are written: a node comes before the nodes of its body, and these
come before what follows the node.

All nodes of a well-formed program are well-formed
(`Program.WellFormed.of_mem_preorder`), so none of them is a closer, and only
those with the tag of an opener have a body.
-/

namespace Blockwise

mutual

/-- A node, followed by the nodes of its body at every depth. -/
def Node.preorder : Node → List Node
  | ⟨instruction, children⟩ => ⟨instruction, children⟩ :: Program.preorder children

def Program.preorder : Program → List Node
  | [] => []
  | node :: rest => node.preorder ++ Program.preorder rest

end

theorem Node.preorder_eq (node : Node) :
    node.preorder = node :: Program.preorder node.children := by
  obtain ⟨instruction, children⟩ := node
  rw [Node.preorder]

namespace Program

@[simp] theorem preorder_nil : preorder [] = [] := by
  rw [preorder]

@[simp] theorem preorder_cons (node : Node) (rest : Program) :
    preorder (node :: rest) = node.preorder ++ preorder rest := by
  rw [preorder]

theorem mem_preorder {program : Program} {node : Node} :
    node ∈ preorder program ↔ ∃ root ∈ program, node ∈ root.preorder := by
  induction program with
  | nil => simp
  | cons root rest ih => simp [ih]

end Program

namespace Node

namespace WellFormed

variable {node : Node}

theorem of_mem_preorder (h : node.WellFormed) : ∀ n ∈ node.preorder, n.WellFormed := by
  induction h with
  | @scope instruction children isOpener children_wellFormed ih =>
    rw [preorder_eq, List.forall_mem_cons]
    refine ⟨.scope isOpener children_wellFormed, fun n hn => ?_⟩
    obtain ⟨child, hchild, hmem⟩ := Program.mem_preorder.1 hn
    exact ih child hchild n hmem
  | @statement tag not_opener not_closer =>
    rw [preorder_eq, List.forall_mem_cons]
    exact ⟨.statement not_opener not_closer, by simp⟩

theorem role_ne_closer (h : node.WellFormed) : node.tag.role ≠ .closer := by
  cases h with
  | scope isOpener _ =>
    change Instruction.role _ ≠ .closer
    rw [isOpener]
    decide
  | statement _ not_closer => exact not_closer

theorem tag_ne_close (h : node.WellFormed) : node.tag ≠ .known .close := by
  intro hclose
  refine h.role_ne_closer ?_
  rw [hclose]
  rfl

/-- Only a node with the tag of an opener has a body. -/
theorem children_eq_nil (h : node.WellFormed) (hrole : node.tag.role ≠ .opener) :
    node.children = [] := by
  cases h with
  | scope isOpener _ => exact absurd isOpener hrole
  | statement _ _ => rfl

end WellFormed

end Node

theorem Program.WellFormed.of_mem_preorder {program : Program} (h : program.WellFormed) :
    ∀ node ∈ program.preorder, node.WellFormed := by
  intro node hnode
  obtain ⟨root, hroot, hmem⟩ := mem_preorder.1 hnode
  exact (h root hroot).of_mem_preorder node hmem

end Blockwise
