import Blockwise.Proofs.Program.Ancestry
import Blockwise.Proofs.Run.Criterion

/-!
# What a run comes to

A run comes to a node in a state (`Program.ComesTo`) when all that it does before goes
well and the bodies around the node are entered. A rule that the node breaks in that
state is broken by the run (`Program.ComesTo.actions_eq_error`).

A run that succeeds comes to every node or to a branch around it
(`Program.WellFormed.finds`). A node that cannot be run is then in the body of a branch
that is not entered, because the goal is not reached whenever the run comes to that
branch (`Program.WellFormed.passesBy`). This is how a second start block can go
unnoticed, and the only way (`runBlocks_with_two_starts`).
-/

namespace Blockwise

/-- From a state, a list of nodes comes to a node in some state. -/
inductive Program.ComesTo (config : Config) : Program → Character → Node → Character → Prop
  | node (node : Node) (rest : Program) (c : Character) : ComesTo config (node :: rest) c node c
  | behind {node n : Node} {rest : Program} {c c' : Character} {first : List Action}
      (actions_eq : node.actions config c = .ok first)
      (comesTo : ComesTo config rest (c.after config.jumpHeight first) n c') :
      ComesTo config (node :: rest) c n c'
  | loop {instruction : Instruction} {children rest : List Node} {n : Node} {c c' : Character}
      (tag_eq : instruction.tag = .known .loop)
      (comesTo : ComesTo config (List.replicate instruction.count children).flatten c n c') :
      ComesTo config (⟨instruction, children⟩ :: rest) c n c'
  | branch {instruction : Instruction} {children rest : List Node} {n : Node} {c c' : Character}
      (tag_eq : instruction.tag = .known .branch)
      (condition_eq : instruction.condition = some (.known .goalReached))
      (reached : config.goalX ≤ c.x) (comesTo : ComesTo config children c n c') :
      ComesTo config (⟨instruction, children⟩ :: rest) c n c'

namespace Program.ComesTo

variable {config : Config} {program rest : Program} {c c' : Character} {n : Node} {e : RunError}

theorem ne_nil (h : ComesTo config program c n c') : program ≠ [] := by
  cases h <;> exact List.cons_ne_nil _ _

/-- A run fails as the node does to which it comes. -/
theorem actions_eq_error (h : ComesTo config program c n c')
    (hn : n.actions config c' = .error e) : Program.actions config program c = .error e := by
  induction h with
  | node node rest c => rw [actions_cons, hn, Except.bind]
  | behind actions_eq _ ih => rw [actions_cons, actions_eq, Except.bind, ih hn, Except.map]
  | @loop instruction children rest n c c' tag_eq comesTo ih =>
    have hchildren : children ≠ [] := by
      rintro rfl
      exact comesTo.ne_nil (by simp)
    rw [actions_cons, Node.actions_loop tag_eq hchildren, ih hn, Except.bind]
  | @branch instruction children rest n c c' tag_eq condition_eq reached comesTo ih =>
    have hchildren : ¬ children.isEmpty := by
      rw [List.isEmpty_iff]
      exact comesTo.ne_nil
    rw [actions_cons, Node.actions_branch tag_eq condition_eq, if_neg (Int64.not_lt.2 reached),
      if_neg hchildren, ih hn, Except.bind]

theorem append (h : ComesTo config program c n c') (rest : Program) :
    ComesTo config (program ++ rest) c n c' := by
  induction h with
  | node node others c => exact .node node _ c
  | behind actions_eq _ ih => exact .behind actions_eq ih
  | loop tag_eq comesTo _ => exact .loop tag_eq comesTo
  | branch tag_eq condition_eq reached comesTo _ =>
    exact .branch tag_eq condition_eq reached comesTo

/-- On the way to a node, the character does not go back. -/
theorem le_x (h : ComesTo config program c n c') : c.x ≤ c'.x := by
  induction h with
  | node _ _ c => exact Int64.le_refl c.x
  | @behind _ _ _ c _ first _ _ ih =>
    exact Int64.le_trans (Character.precedes_after config.jumpHeight c first).x ih
  | loop _ _ ih => exact ih
  | branch _ _ _ _ ih => exact ih

end Program.ComesTo

/-! ## What a run that succeeds comes to -/

variable {config : Config} {node : Node} {program : Program} {ancestors : List Node}
  {lineage : List Node × Node} {c : Character} {actions : List Action}

/-- From a state, a list of nodes comes to the last node of a lineage or to a branch
around it. -/
def Program.Finds (config : Config) (program : Program) (c : Character)
    (lineage : List Node × Node) : Prop :=
  ∃ n c', ComesTo config program c n c' ∧
    (n = lineage.2 ∨ n ∈ lineage.1 ∧ n.tag = .known .branch)

theorem Program.finds_of_forall
    (hnodes : ∀ node ∈ program, ∀ c first, node.actions config c = .ok first →
      ∀ lineage ∈ node.lineages ancestors, Program.Finds config [node] c lineage)
    (hactions : Program.actions config program c = .ok actions)
    (hlineage : lineage ∈ program.lineages ancestors) : program.Finds config c lineage := by
  induction program generalizing c actions with
  | nil => cases hlineage
  | cons node rest ih =>
    obtain ⟨hnode, hrest⟩ := List.forall_mem_cons.1 hnodes
    rw [actions_cons] at hactions
    obtain ⟨first, others, hfirst, hothers, -⟩ := bind_map_append_eq_ok_iff.1 hactions
    rw [lineages_cons, List.mem_append] at hlineage
    rcases hlineage with hlineage | hlineage
    · obtain ⟨n, c', hcomes, hn⟩ := hnode c first hfirst lineage hlineage
      exact ⟨n, c', hcomes.append rest, hn⟩
    · obtain ⟨n, c', hcomes, hn⟩ := ih hrest hothers hlineage
      exact ⟨n, c', .behind hfirst hcomes, hn⟩

theorem Node.WellFormed.finds (h : node.WellFormed) (hactions : node.actions config c = .ok actions)
    (hlineage : lineage ∈ node.lineages ancestors) : Program.Finds config [node] c lineage := by
  induction h generalizing ancestors lineage c actions with
  | @scope instruction children isOpener _ ih =>
    rw [Node.lineages_eq, List.mem_cons] at hlineage
    rcases hlineage with rfl | hbelow
    · exact ⟨_, c, .node _ [] c, .inl rfl⟩
    · rcases Tag.eq_loop_or_branch_of_role_eq_opener isOpener with htag | htag
      · -- The first round of a loop comes to all that its body does.
        have hchildren : children ≠ [] := by
          rintro rfl
          cases hbelow
        obtain ⟨rounds, hcount⟩ := instruction.exists_count_eq_succ
        rw [Node.actions_loop htag hchildren, hcount, List.replicate_succ, List.flatten_cons,
          Program.actions_append] at hactions
        obtain ⟨first, -, hfirst, -⟩ := bind_map_append_eq_ok_iff.1 hactions
        obtain ⟨n, c', hcomes, hn⟩ := Program.finds_of_forall
          (fun child hchild _ _ hok _ hmem => ih child hchild hok hmem) hfirst hbelow
        refine ⟨n, c', .loop htag ?_, hn⟩
        rw [hcount, List.replicate_succ, List.flatten_cons]
        exact hcomes.append _
      · -- Whether its body is entered or not, the branch itself is come to.
        refine ⟨_, c, .node _ [] c, .inr ⟨?_, htag⟩⟩
        obtain ⟨child, -, hchild⟩ := Program.mem_lineages.1 hbelow
        exact Node.mem_of_mem_lineages hchild List.mem_cons_self
  | @statement tag _ _ =>
    rw [Node.lineages_eq, Program.lineages_nil, List.mem_singleton] at hlineage
    subst hlineage
    exact ⟨_, c, .node _ [] c, .inl rfl⟩

/-- A run that succeeds comes to every node or to a branch around it. -/
theorem Program.WellFormed.finds (h : program.WellFormed)
    (hactions : Program.actions config program c = .ok actions)
    (hlineage : lineage ∈ program.lineages ancestors) : program.Finds config c lineage :=
  finds_of_forall (fun node hnode _ _ hok _ hmem => (h node hnode).finds hok hmem) hactions hlineage

/-! ## A second start -/

/-- On its way to a node with these ancestors, a list of nodes comes to a branch whose
condition is not met, however often it comes to that branch. -/
def Program.PassesBy (config : Config) (program : Program) (c : Character)
    (ancestors : List Node) : Prop :=
  ∃ branch ∈ ancestors, branch.tag = .known .branch ∧
    (∃ c', ComesTo config program c branch c') ∧
    ∀ c', ComesTo config program c branch c' → c'.x < config.goalX

/-- What is passed by is passed by from before the goal. -/
theorem Program.PassesBy.lt_goalX (h : program.PassesBy config c ancestors) :
    c.x < config.goalX := by
  obtain ⟨branch, -, -, ⟨c', hcomes⟩, hbefore⟩ := h
  exact Int64.lt_of_le_of_lt hcomes.le_x (hbefore c' hcomes)

/-- A run that succeeds passes by every node that cannot be run. -/
theorem Program.WellFormed.passesBy (h : program.WellFormed)
    (hactions : Program.actions config program c = .ok actions)
    (hlineage : lineage ∈ program.lineages []) (hrunnable : ¬ lineage.2.Runnable) :
    program.PassesBy config c lineage.1 := by
  -- A run that comes to a node fails if the node does.
  have hsucceeds : ∀ n c' e, ComesTo config program c n c' → n.actions config c' ≠ .error e :=
    fun n c' e hcomes hfails => nomatch hactions.symm.trans (hcomes.actions_eq_error hfails)
  have hmem : lineage.2 ∈ program.preorder := by
    rw [← program.map_snd_lineages []]
    exact List.mem_map_of_mem hlineage
  obtain ⟨e, hfault⟩ : ∃ e, lineage.2.fault? = some e :=
    Option.ne_none_iff_exists'.1 fun hnone =>
      hrunnable ((h.of_mem_preorder _ hmem).runnable hnone)
  obtain ⟨n, c', hcomes, rfl | ⟨hancestor, hbranch⟩⟩ := h.finds hactions hlineage
  · exact absurd ((Node.breaks_of_fault?_eq_some hfault).actions_eq_error config c')
      (hsucceeds _ c' e hcomes)
  · refine ⟨n, hancestor, hbranch, ⟨c', hcomes⟩, fun c' hcomes => Int64.not_le.1 fun hgoal => ?_⟩
    obtain ⟨root, hroot, hbelow⟩ := mem_lineages.1 hlineage
    obtain hnil | ⟨hn, hin⟩ := Node.mem_preorder_of_mem_lineages hbelow hancestor
    · cases hnil
    · -- The goal being reached, the branch comes to the node, or to a fault before it.
      obtain ⟨e', hfirst⟩ : ∃ e', n.preorder.findSome? Node.fault? = some e' :=
        Option.isSome_iff_exists.1
          (List.findSome?_isSome_iff.2 ⟨lineage.2, hin, Option.isSome_of_eq_some hfault⟩)
      have hwell := h.of_mem_preorder n (mem_preorder.2 ⟨root, hroot, hn⟩)
      exact hsucceeds n c' e' hcomes (hwell.actions_eq_error hgoal hfirst)

theorem exists_mem_tail_of_two_le_countP {α : Type} {l : List α} {P : α → Bool}
    (h : 2 ≤ l.countP P) : ∃ a ∈ l.tail, P a := by
  cases l with
  | nil => cases h
  | cons first rest =>
    have hrest : 0 < rest.countP P := by
      rw [List.countP_cons] at h
      split at h <;> omega
    exact List.countP_pos_iff.1 hrest

/-- The run of a program with two start blocks or more fails, or else it begins before
the goal and passes by all of them but the first. -/
theorem runBlocks_with_two_starts {blocks : List Block}
    (hprogram : Program.ofBlocks blocks = .ok program)
    (hstarts : 2 ≤ program.preorder.countP fun n => n.tag = .known .start) (config : Config)
    (overrides : Overrides) :
    (∃ e, runBlocks config overrides blocks = .error e) ∨
    (overrides.character.x < config.goalX ∧
      ∀ lineage ∈ (program.lineages []).tail, lineage.2.tag = .known .start →
        Program.PassesBy config program.tail overrides.character lineage.1) := by
  cases hrun : runBlocks config overrides blocks with
  | error e => exact .inl ⟨e, rfl⟩
  | ok execution =>
    have hblocks : blocks ≠ [] := by
      rintro rfl
      cases hrun
    rw [runBlocks_eq_run hblocks hprogram] at hrun
    obtain ⟨first, rest, actions, rfl, hstart, hactions, -⟩ :=
      Program.exists_actions_of_run_eq_ok hrun
    obtain ⟨hfirst, hrest⟩ :=
      (Program.wellFormed_cons ..).1 ((Program.ofBlocks_eq_ok_iff ..).1 hprogram).1
    have hbody : first.children = [] := hfirst.children_eq_nil (by rw [hstart]; decide)
    have hothers : (Program.lineages [] (first :: rest)).tail = Program.lineages [] rest := by
      rw [Program.lineages_cons, Node.lineages_eq, hbody, Program.lineages_nil]
      rfl
    have hpassed : ∀ lineage ∈ (Program.lineages [] (first :: rest)).tail,
        lineage.2.tag = .known .start →
        Program.PassesBy config rest overrides.character lineage.1 := by
      intro lineage hlineage htag
      rw [hothers] at hlineage
      exact hrest.passesBy hactions hlineage fun hrunnable => hrunnable.not_start htag
    refine .inr ⟨?_, hpassed⟩
    rw [← Program.map_snd_lineages [], List.countP_map] at hstarts
    obtain ⟨lineage, hlineage, htag⟩ := exists_mem_tail_of_two_le_countP hstarts
    exact (hpassed lineage hlineage (of_decide_eq_true htag)).lt_goalX

/-- A second start in the body of a branch, with a run from behind the goal. -/
theorem runBlocks_with_two_starts_in_branch :
    let blocks : List Block :=
      [{ tag := .known .start, id := "a" },
        { tag := .known .branch, condition := some (.known .goalReached), id := "b" },
        { tag := .known .start, id := "c" },
        { tag := .known .close, id := "d" }]
    let program : Program :=
      [.leaf (.known .start),
        ⟨{ tag := .known .branch, condition := some (.known .goalReached) },
          [.leaf (.known .start)]⟩]
    let overrides : Overrides := { x := some 4 }
    Program.ofBlocks blocks = .ok program ∧
      2 ≤ (program.preorder.countP fun n => n.tag = .known .start) ∧
      ∃ e, runBlocks {} overrides blocks = .error e := by
  intro blocks program overrides
  have hprogram : Program.ofBlocks blocks = .ok program := rfl
  have hstarts : 2 ≤ program.preorder.countP fun n => n.tag = .known .start := by decide
  refine ⟨hprogram, hstarts, ?_⟩
  exact (runBlocks_with_two_starts hprogram hstarts {} overrides).resolve_right
    fun h => absurd h.1 (by decide)

/-- A run that does not reach the goal succeeds although there is a second start, in the
body of a branch. -/
theorem runBlocks_second_start_passed_by :
    ¬ ∀ (blocks : List Block) (program : Program), Program.ofBlocks blocks = .ok program →
      2 ≤ (program.preorder.countP fun n => n.tag = .known .start) →
      ∀ config overrides, ∃ e, runBlocks config overrides blocks = .error e := by
  intro h
  obtain ⟨e, he⟩ := h
    [{ tag := .known .start, id := "a" },
      { tag := .known .branch, condition := some (.known .goalReached), id := "b" },
      { tag := .known .start, id := "c" },
      { tag := .known .close, id := "d" }]
    [.leaf (.known .start),
      ⟨{ tag := .known .branch, condition := some (.known .goalReached) },
        [.leaf (.known .start)]⟩] rfl (by decide) {} {}
  cases he

end Blockwise
