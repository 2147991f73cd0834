import Blockwise.Proofs.Program.Preorder

/-!
# Programs without one of their nodes

`Program.delete` takes the node of a given rank in the pre-order out of a program,
together with its body. In the sequence of a well-formed program this node is one
part, behind as many instructions that are no closers as the rank says; without that
part it is the sequence of the program without the node
(`Program.WellFormed.exists_isCut`).
-/

namespace Blockwise

mutual

/-- A node without the node of rank `r` of its body. -/
def Node.deleteBelow : Nat → Node → Node
  | r, ⟨instruction, children⟩ => ⟨instruction, Program.delete r children⟩

/-- A program without the node of rank `r` in its pre-order, and without the body of
that node. -/
def Program.delete : Nat → Program → Program
  | _, [] => []
  | r, node :: rest =>
    if r = 0 then rest
    else if r < node.preorder.length then node.deleteBelow (r - 1) :: rest
    else node :: Program.delete (r - node.preorder.length) rest

end

namespace Program

theorem delete_zero_cons (node : Node) (rest : Program) : delete 0 (node :: rest) = rest := by
  rw [delete, if_pos rfl]

theorem delete_succ_cons_of_lt {instruction : Instruction} {children : List Node} {r : Nat}
    (h : r < (preorder children).length) (rest : Program) :
    delete (r + 1) (⟨instruction, children⟩ :: rest) =
      ⟨instruction, delete r children⟩ :: rest := by
  have hlt : r + 1 < (Node.preorder ⟨instruction, children⟩).length := by
    rw [Node.preorder_eq, List.length_cons]
    exact Nat.succ_lt_succ h
  rw [delete, if_neg (Nat.succ_ne_zero r), if_pos hlt, Node.deleteBelow, Nat.add_sub_cancel]

theorem delete_cons_of_le {node : Node} {r : Nat} (h : node.preorder.length ≤ r)
    (rest : Program) :
    delete r (node :: rest) = node :: delete (r - node.preorder.length) rest := by
  have hpos : 0 < r := by
    rw [Node.preorder_eq, List.length_cons] at h
    omega
  rw [delete, if_neg (Nat.ne_of_gt hpos), if_neg (Nat.not_lt.2 h)]

end Program

/-! ## The part of a node -/

theorem Program.countP_flatten_of_forall {program : Program}
    (h : ∀ node ∈ program,
      (node.flatten.countP fun i => i.role ≠ .closer) = node.preorder.length) :
    (program.flatten.countP fun i => i.role ≠ .closer) = program.preorder.length := by
  induction program with
  | nil => simp
  | cons node rest ih =>
    obtain ⟨hnode, hrest⟩ := List.forall_mem_cons.1 h
    rw [flatten_cons, preorder_cons, List.countP_append, List.length_append, hnode, ih hrest]

/-- A node has as many instructions that are no closers as there are nodes from it
downwards. -/
theorem Node.WellFormed.countP_flatten {node : Node} (h : node.WellFormed) :
    (node.flatten.countP fun i => i.role ≠ .closer) = node.preorder.length := by
  induction h with
  | @scope instruction children isOpener _ ih =>
    have hself : instruction.role ≠ .closer := by
      rw [isOpener]
      decide
    rw [Node.flatten_scope isOpener, Node.preorder_eq, List.length_cons,
      List.countP_cons_of_pos (by simpa using hself), List.countP_append,
      Program.countP_flatten_of_forall ih]
    rfl
  | @statement tag not_opener not_closer =>
    have hflatten : (Node.leaf tag).flatten = [.bare tag] := Node.flatten_leaf not_opener
    have hself : (Instruction.bare tag).role ≠ .closer := not_closer
    change ((Node.leaf tag).flatten.countP _) = _
    rw [hflatten, List.countP_cons_of_pos (by simpa using hself), Node.preorder_eq,
      Program.preorder_nil]
    rfl

namespace Program

/-- The sequence of `program` has `node`, which is the one of rank `r`, between
`before` and `after`, and is without that part the sequence of the program from which
`node` has been deleted. -/
structure IsCut (program : Program) (r : Nat) (node : Node) (before after : List Instruction) :
    Prop where
  getElem?_preorder : program.preorder[r]? = some node
  flatten : program.flatten = before ++ node.flatten ++ after
  flatten_delete : (program.delete r).flatten = before ++ after
  rank : (before.countP fun i => i.role ≠ .closer) = r
  wellFormed_delete : (program.delete r).WellFormed

variable {node : Node} {rest : Program} {r : Nat}

theorem isCut_zero (hrest : rest.WellFormed) :
    IsCut (node :: rest) 0 node [] rest.flatten where
  getElem?_preorder := by rw [preorder_cons, Node.preorder_eq]; rfl
  flatten := by rw [flatten_cons]; rfl
  flatten_delete := by rw [delete_zero_cons]; rfl
  rank := rfl
  wellFormed_delete := by rw [delete_zero_cons]; exact hrest

theorem IsCut.below {instruction : Instruction} {children : List Node}
    {before after : List Instruction} (h : IsCut children r node before after)
    (isOpener : instruction.role = .opener) (hrest : rest.WellFormed) :
    IsCut (⟨instruction, children⟩ :: rest) (r + 1) node (instruction :: before)
      (after ++ .bare (.known .close) :: rest.flatten) := by
  have hlt : r < (preorder children).length := (List.getElem?_eq_some_iff.1 h.getElem?_preorder).1
  have hdelete : delete (r + 1) (⟨instruction, children⟩ :: rest) =
      ⟨instruction, delete r children⟩ :: rest := delete_succ_cons_of_lt hlt rest
  have hself : instruction.role ≠ .closer := by
    rw [isOpener]
    decide
  constructor
  · rw [preorder_cons, Node.preorder_eq, List.cons_append, List.getElem?_cons_succ,
      List.getElem?_append_left hlt, h.getElem?_preorder]
  · rw [flatten_cons, Node.flatten_scope isOpener, h.flatten]
    simp
  · rw [hdelete, flatten_cons, Node.flatten_scope isOpener, h.flatten_delete]
    simp
  · rw [List.countP_cons_of_pos (by simpa using hself), h.rank]
  · rw [hdelete, wellFormed_cons]
    exact ⟨.scope isOpener h.wellFormed_delete, hrest⟩

theorem IsCut.behind {first : Node} {before after : List Instruction}
    (h : IsCut rest r node before after) (hfirst : first.WellFormed) :
    IsCut (first :: rest) (first.preorder.length + r) node (first.flatten ++ before) after := by
  have hdelete := delete_cons_of_le (Nat.le_add_right first.preorder.length r) rest
  rw [Nat.add_sub_cancel_left] at hdelete
  constructor
  · rw [preorder_cons, List.getElem?_append_right (Nat.le_add_right ..), Nat.add_sub_cancel_left,
      h.getElem?_preorder]
  · rw [flatten_cons, h.flatten]
    simp
  · rw [hdelete, flatten_cons, h.flatten_delete, List.append_assoc]
  · rw [List.countP_append, hfirst.countP_flatten, h.rank]
  · rw [hdelete, wellFormed_cons]
    exact ⟨hfirst, h.wellFormed_delete⟩

/-- Every node of a program can be cut out, if that holds for the bodies of its
roots. -/
theorem exists_isCut_of_forall {program : Program} (hprogram : program.WellFormed)
    (hbelow : ∀ root ∈ program, ∀ r, r < (preorder root.children).length →
      ∃ node before after, IsCut root.children r node before after)
    (hr : r < program.preorder.length) :
    ∃ node before after, IsCut program r node before after := by
  induction program generalizing r with
  | nil =>
    rw [preorder_nil] at hr
    cases hr
  | cons root rest ih =>
    obtain ⟨hroot, hrest⟩ := (wellFormed_cons ..).1 hprogram
    rcases Nat.lt_or_ge r root.preorder.length with hlt | hge
    · cases r with
      | zero => exact ⟨_, _, _, isCut_zero hrest⟩
      | succ r =>
        have hr' : r < (preorder root.children).length := by
          rw [Node.preorder_eq, List.length_cons] at hlt
          omega
        obtain ⟨node, before, after, hcut⟩ := hbelow root List.mem_cons_self r hr'
        cases hroot with
        | scope isOpener _ => exact ⟨_, _, _, hcut.below isOpener hrest⟩
        | statement _ _ =>
          rw [preorder_nil] at hr'
          cases hr'
    · obtain ⟨r, rfl⟩ := Nat.exists_eq_add_of_le hge
      rw [preorder_cons, List.length_append] at hr
      obtain ⟨node, before, after, hcut⟩ := ih (r := r) hrest
        (fun n hn => hbelow n (List.mem_cons_of_mem _ hn)) (by omega)
      exact ⟨_, _, _, hcut.behind hroot⟩

end Program

theorem Node.WellFormed.exists_isCut_children {root : Node} (h : root.WellFormed) :
    ∀ r, r < (Program.preorder root.children).length →
      ∃ node before after, Program.IsCut root.children r node before after := by
  induction h with
  | scope _ children_wellFormed ih =>
    exact fun r hr => Program.exists_isCut_of_forall children_wellFormed ih hr
  | statement _ _ =>
    intro r hr
    rw [Program.preorder_nil] at hr
    cases hr

theorem Program.WellFormed.exists_isCut {program : Program} (h : program.WellFormed) {r : Nat}
    (hr : r < program.preorder.length) :
    ∃ node before after, IsCut program r node before after :=
  exists_isCut_of_forall h (fun root hroot => (h root hroot).exists_isCut_children) hr

end Blockwise
