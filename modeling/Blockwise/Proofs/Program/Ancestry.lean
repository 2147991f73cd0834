import Blockwise.Proofs.Program.Preorder

/-!
# Ancestors

`Program.lineages` lists the nodes of a program in the order in which they are
written, each with its ancestors. Without the ancestors it is the pre-order
(`Program.map_snd_lineages`).
-/

namespace Blockwise

mutual

/-- A node and the nodes of its body at every depth, each with its ancestors, the
innermost first. Those of the node itself are `ancestors`. -/
def Node.lineages (ancestors : List Node) : Node → List (List Node × Node)
  | ⟨instruction, children⟩ =>
    (ancestors, ⟨instruction, children⟩) ::
      Program.lineages (⟨instruction, children⟩ :: ancestors) children

def Program.lineages (ancestors : List Node) : Program → List (List Node × Node)
  | [] => []
  | node :: rest => node.lineages ancestors ++ Program.lineages ancestors rest

end

theorem Node.lineages_eq (ancestors : List Node) (node : Node) :
    node.lineages ancestors =
      (ancestors, node) :: Program.lineages (node :: ancestors) node.children := by
  obtain ⟨instruction, children⟩ := node
  rw [Node.lineages]

namespace Program

@[simp] theorem lineages_nil (ancestors : List Node) : lineages ancestors [] = [] := by
  rw [lineages]

@[simp] theorem lineages_cons (ancestors : List Node) (node : Node) (rest : Program) :
    lineages ancestors (node :: rest) = node.lineages ancestors ++ lineages ancestors rest := by
  rw [lineages]

theorem mem_lineages {program : Program} {ancestors : List Node} {lineage : List Node × Node} :
    lineage ∈ lineages ancestors program ↔ ∃ root ∈ program, lineage ∈ root.lineages ancestors := by
  induction program with
  | nil => simp
  | cons root rest ih => simp [ih]

theorem map_snd_lineages_of_forall {program : Program} {ancestors : List Node}
    (h : ∀ node ∈ program, (node.lineages ancestors).map Prod.snd = node.preorder) :
    (lineages ancestors program).map Prod.snd = preorder program := by
  induction program with
  | nil => simp
  | cons node rest ih =>
    obtain ⟨hnode, hrest⟩ := List.forall_mem_cons.1 h
    rw [lineages_cons, preorder_cons, List.map_append, hnode, ih hrest]

end Program

theorem Node.map_snd_lineages (ancestors : List Node) (node : Node) :
    (node.lineages ancestors).map Prod.snd = node.preorder := by
  induction node using Node.induction generalizing ancestors with
  | mk instruction children ih =>
    rw [lineages_eq, preorder_eq, List.map_cons,
      Program.map_snd_lineages_of_forall fun child hchild => ih child hchild _]

theorem Program.map_snd_lineages (ancestors : List Node) (program : Program) :
    (program.lineages ancestors).map Prod.snd = program.preorder :=
  map_snd_lineages_of_forall fun node _ => node.map_snd_lineages ancestors

/-- What is given as an ancestor is one of every node. -/
theorem Node.mem_of_mem_lineages {node a : Node} {ancestors : List Node}
    {lineage : List Node × Node} (h : lineage ∈ node.lineages ancestors) (ha : a ∈ ancestors) :
    a ∈ lineage.1 := by
  induction node using Node.induction generalizing ancestors with
  | mk instruction children ih =>
    rw [lineages_eq, List.mem_cons] at h
    rcases h with rfl | h
    · exact ha
    · obtain ⟨child, hchild, h⟩ := Program.mem_lineages.1 h
      exact ih child hchild h (List.mem_cons_of_mem _ ha)

/-- All other ancestors are nodes from whose bodies the node comes. -/
theorem Node.mem_preorder_of_mem_lineages {node a : Node} {ancestors : List Node}
    {lineage : List Node × Node} (h : lineage ∈ node.lineages ancestors) (ha : a ∈ lineage.1) :
    a ∈ ancestors ∨ a ∈ node.preorder ∧ lineage.2 ∈ a.preorder := by
  induction node using Node.induction generalizing ancestors with
  | mk instruction children ih =>
    have hmem : lineage.2 ∈ Node.preorder ⟨instruction, children⟩ := by
      rw [← Node.map_snd_lineages ancestors]
      exact List.mem_map_of_mem h
    rw [lineages_eq, List.mem_cons] at h
    rcases h with rfl | h
    · exact .inl ha
    · obtain ⟨child, hchild, h⟩ := Program.mem_lineages.1 h
      rw [preorder_eq] at hmem ⊢
      rcases ih child hchild h with hancestors | ⟨hbelow, hin⟩
      · rcases List.mem_cons.1 hancestors with rfl | hancestors
        · refine .inr ⟨List.mem_cons_self, ?_⟩
          rwa [preorder_eq]
        · exact .inl hancestors
      · exact .inr ⟨List.mem_cons_of_mem _ (Program.mem_preorder.2 ⟨child, hchild, hbelow⟩), hin⟩

end Blockwise
