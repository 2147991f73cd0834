import Blockwise.Proofs.Character.Growth
import Blockwise.Proofs.Program.Fault
import Blockwise.Proofs.Run.Errors

/-!
# Which programs run without an error

A program all of whose nodes are runnable runs from every state
(`Node.WellFormed.exists_actions`). The converse holds too, as a character that
is at the goal stays there. From there it goes into every branch, so a run comes
to all nodes in the order of `Program.preorder`, up to the first one with a
fault (`Program.actions_eq_error`).
-/

namespace Blockwise

variable {config : Config} {node : Node} {program : Program} {c : Character} {e : RunError}

/-! ## Without a fault -/

theorem Program.exists_actions
    (h : ∀ node ∈ program, ∀ c, ∃ actions, node.actions config c = .ok actions)
    (c : Character) : ∃ actions, Program.actions config program c = .ok actions := by
  induction program generalizing c with
  | nil => exact ⟨[], actions_nil config c⟩
  | cons node rest ih =>
    obtain ⟨hnode, hrest⟩ := List.forall_mem_cons.1 h
    obtain ⟨first, hfirst⟩ := hnode c
    obtain ⟨others, hothers⟩ := ih hrest (c.after config.jumpHeight first)
    refine ⟨first ++ others, ?_⟩
    rw [actions_cons, hfirst, Except.bind, hothers, Except.map]

/-- A node runs from every state if it can run itself and so can all nodes below
it. -/
theorem Node.WellFormed.exists_actions (h : node.WellFormed)
    (hrunnable : ∀ n ∈ node.preorder, n.Runnable) (config : Config) (c : Character) :
    ∃ actions, node.actions config c = .ok actions := by
  induction h generalizing c with
  | @scope instruction children isOpener _ ih =>
    rw [Node.preorder_eq, List.forall_mem_cons] at hrunnable
    obtain ⟨hself, hbelow⟩ := hrunnable
    have hchildren : ∀ child ∈ children, ∀ c, ∃ actions, child.actions config c = .ok actions :=
      fun child hchild => ih child hchild fun n hn =>
        hbelow n (Program.mem_preorder.2 ⟨child, hchild, hn⟩)
    rcases Tag.eq_loop_or_branch_of_role_eq_opener isOpener with htag | htag
    · rw [Node.actions_loop htag (hself.body htag)]
      exact Program.exists_actions
        (fun child hchild => hchildren child (mem_of_mem_flatten_replicate hchild)) c
    · rw [Node.actions_branch htag (hself.condition htag)]
      split
      · exact ⟨_, rfl⟩
      · split
        · exact ⟨_, rfl⟩
        · exact Program.exists_actions hchildren c
  | @statement tag not_opener _ =>
    have hself := hrunnable _ (by rw [Node.preorder_eq]; exact List.mem_cons_self)
    obtain ⟨kind, htag, hkind⟩ := hself.motion_or_looks
      (fun htag => not_opener (congrArg Tag.role htag))
      (fun htag => not_opener (congrArg Tag.role htag))
    obtain rfl : tag = .known kind := htag
    rw [Node.actions]
    cases kind with
    | move | jump | say => exact ⟨_, rfl⟩
    | start | loop | branch | close | goalReached => rcases hkind with hkind | hkind <;> cases hkind

/-! ## With a fault -/

theorem Node.Breaks.actions_eq_error (h : node.Breaks e) (config : Config) (c : Character) :
    node.actions config c = .error e := by
  obtain ⟨⟨tag, condition, loopCount⟩, children⟩ := node
  rw [Node.actions]
  cases h with
  | duplicateStart tag_eq =>
    obtain rfl : tag = .known .start := tag_eq
    rfl
  | emptyLoop tag_eq no_body =>
    obtain rfl : tag = .known .loop := tag_eq
    obtain rfl : children = [] := no_body
    rfl
  | conditionUnset tag_eq unset =>
    obtain rfl : tag = .known .branch := tag_eq
    obtain rfl : condition = none := unset
    rfl
  | @unknownCondition other tag_eq set unknown =>
    obtain rfl : tag = .known .branch := tag_eq
    obtain rfl : condition = some other := set
    simp only
  | unsupportedBlock tag_eq =>
    rcases tag_eq with tag_eq | ⟨text, tag_eq⟩
    · obtain rfl : tag = .known .goalReached := tag_eq
      rfl
    · obtain rfl : tag = .unknown text := tag_eq
      rfl

/-- The first node with a fault is the one that a list of nodes fails at,
provided that each of them does and that it is run from the goal. -/
theorem Program.actions_eq_error (hwell : program.WellFormed)
    (hnodes : ∀ node ∈ program, ∀ c e, config.goalX ≤ c.x →
      node.preorder.findSome? Node.fault? = some e → node.actions config c = .error e)
    (hgoal : config.goalX ≤ c.x) (hfault : program.preorder.findSome? Node.fault? = some e) :
    Program.actions config program c = .error e := by
  induction program generalizing c with
  | nil =>
    rw [preorder_nil] at hfault
    cases hfault
  | cons node rest ih =>
    obtain ⟨hnode, hrest⟩ := List.forall_mem_cons.1 hnodes
    obtain ⟨hwellNode, hwellRest⟩ := (wellFormed_cons ..).1 hwell
    rw [preorder_cons, List.findSome?_append] at hfault
    rw [actions_cons]
    cases hfirst : node.preorder.findSome? Node.fault? with
    | some e' =>
      rw [hfirst] at hfault
      obtain rfl := Option.some.inj hfault
      rw [hnode c _ hgoal hfirst, Except.bind]
    | none =>
      rw [hfirst, Option.none_or] at hfault
      have hrunnable : ∀ n ∈ node.preorder, n.Runnable := fun n hn =>
        (hwellNode.of_mem_preorder n hn).runnable (List.findSome?_eq_none_iff.1 hfirst n hn)
      obtain ⟨first, hactions⟩ := hwellNode.exists_actions hrunnable config c
      -- What comes before the fault does not lead away from the goal.
      have hgoal' : config.goalX ≤ (c.after config.jumpHeight first).x :=
        Int64.le_trans hgoal (Character.precedes_after config.jumpHeight c first).x
      rw [hactions, Except.bind, ih hwellRest hrest hgoal' hfault, Except.map]

theorem Node.WellFormed.actions_eq_error (h : node.WellFormed) (hgoal : config.goalX ≤ c.x)
    (hfault : node.preorder.findSome? Node.fault? = some e) :
    node.actions config c = .error e := by
  induction h generalizing c e with
  | @scope instruction children isOpener children_wellFormed ih =>
    rw [Node.preorder_eq, List.findSome?_cons] at hfault
    cases hself : Node.fault? ⟨instruction, children⟩ with
    | some e' =>
      rw [hself] at hfault
      obtain rfl := Option.some.inj hfault
      exact (Node.breaks_of_fault?_eq_some hself).actions_eq_error config c
    | none =>
      rw [hself] at hfault
      have hbody : ∀ c, config.goalX ≤ c.x → Program.actions config children c = .error e :=
        fun c hc => Program.actions_eq_error children_wellFormed
          (fun child hchild c e hc he => ih child hchild hc he) hc hfault
      have hchildren : children ≠ [] := by
        rintro rfl
        rw [Program.preorder_nil] at hfault
        cases hfault
      have hrunnable : Node.Runnable ⟨instruction, children⟩ :=
        (Node.WellFormed.scope isOpener children_wellFormed).runnable hself
      rcases Tag.eq_loop_or_branch_of_role_eq_opener isOpener with htag | htag
      · -- A loop runs at least once, and its first round fails.
        obtain ⟨rounds, hcount⟩ := instruction.exists_count_eq_succ
        rw [Node.actions_loop htag hchildren, hcount, List.replicate_succ, List.flatten_cons,
          Program.actions_append, hbody c hgoal, Except.bind]
      · rw [Node.actions_branch htag (hrunnable.condition htag), if_neg (Int64.not_lt.2 hgoal),
          if_neg (by rwa [List.isEmpty_iff]), hbody c hgoal]
  | @statement tag not_opener not_closer =>
    rw [Node.preorder_eq] at hfault
    obtain ⟨n, hn, hfault⟩ := List.exists_of_findSome?_eq_some hfault
    obtain rfl : n = _ := by simpa using hn
    exact (Node.breaks_of_fault?_eq_some hfault).actions_eq_error config c

/-! ## Sequences -/

/-- A sequence that begins with the start block runs as the nodes behind that
block do. -/
theorem exists_of_ofBlocks_start {first : Block} {rest : List Block}
    (hprogram : Program.ofBlocks (first :: rest) = .ok program)
    (hstart : first.tag = .known .start) :
    ∃ others : Program, program.preorder.tail = others.preorder ∧ others.WellFormed ∧
      ∀ config overrides, runBlocks config overrides (first :: rest) =
        (Program.actions config others overrides.character).map
          (Execution.ofActions config overrides.character) := by
  obtain ⟨node, others, rfl, htag⟩ := Program.exists_cons_of_ofBlocks_eq_ok hprogram
  rw [hstart] at htag
  obtain ⟨hnode, hothers⟩ :=
    (Program.wellFormed_cons ..).1 ((Program.ofBlocks_eq_ok_iff ..).1 hprogram).1
  refine ⟨others, ?_, hothers, fun config overrides => ?_⟩
  · rw [Program.preorder_cons, Node.preorder_eq, hnode.children_eq_nil (by rw [htag]; decide),
      Program.preorder_nil]
    rfl
  · rw [runBlocks_eq_run (List.cons_ne_nil _ _) hprogram, Program.run_start htag]

theorem exists_of_runBlocks_eq_ok {overrides : Overrides} {blocks : List Block}
    {execution : Execution} (h : runBlocks config overrides blocks = .ok execution) :
    ∃ first rest program, blocks = first :: rest ∧ Program.ofBlocks blocks = .ok program ∧
      first.tag = .known .start := by
  cases blocks with
  | nil => cases h
  | cons first rest =>
    cases hprogram : Program.ofBlocks (first :: rest) with
    | error fault =>
      simp only [runBlocks, List.isEmpty_cons, Bool.false_eq_true, if_false, hprogram] at h
      cases h
    | ok program =>
      rw [runBlocks_eq_run (List.cons_ne_nil _ _) hprogram] at h
      obtain ⟨start, others, _, rfl, hstart, -, -⟩ := Program.exists_actions_of_run_eq_ok h
      obtain ⟨node, _, hcons, htag⟩ := Program.exists_cons_of_ofBlocks_eq_ok hprogram
      obtain ⟨rfl, -⟩ := List.cons.inj hcons
      exact ⟨first, rest, _, rfl, rfl, htag ▸ hstart⟩

theorem runBlocks_of_runnable {first : Block} {rest : List Block}
    (hprogram : Program.ofBlocks (first :: rest) = .ok program)
    (hstart : first.tag = .known .start) (hrunnable : ∀ n ∈ program.preorder.tail, n.Runnable)
    (config : Config) (overrides : Overrides) :
    ∃ execution, runBlocks config overrides (first :: rest) = .ok execution := by
  obtain ⟨others, htail, hwell, hrun⟩ := exists_of_ofBlocks_start hprogram hstart
  rw [htail] at hrunnable
  have hnodes : ∀ node ∈ others, ∀ c, ∃ actions, node.actions config c = .ok actions :=
    fun node hnode => (hwell node hnode).exists_actions
      (fun n hn => hrunnable n (Program.mem_preorder.2 ⟨node, hnode, hn⟩)) config
  obtain ⟨actions, hactions⟩ := Program.exists_actions hnodes overrides.character
  exact ⟨_, by rw [hrun, hactions, Except.map]⟩

/-- From the goal, a run comes to the first node that cannot run. -/
theorem runBlocks_of_not_runnable {first : Block} {rest : List Block}
    (hprogram : Program.ofBlocks (first :: rest) = .ok program)
    (hstart : first.tag = .known .start) {overrides : Overrides}
    (hgoal : config.goalX ≤ overrides.character.x)
    (hrunnable : ¬ ∀ n ∈ program.preorder.tail, n.Runnable) :
    ∃ before node after e, FirstFault program.preorder.tail before node after e ∧
      runBlocks config overrides (first :: rest) = .error e := by
  obtain ⟨others, htail, hwell, hrun⟩ := exists_of_ofBlocks_start hprogram hstart
  rw [htail] at hrunnable ⊢
  obtain ⟨before, node, after, e, hfirst, hfault⟩ := hwell.exists_firstFault hrunnable
  have hactions : Program.actions config others overrides.character = .error e :=
    Program.actions_eq_error hwell
      (fun n hn c e hc he => (hwell n hn).actions_eq_error hc he) hgoal hfault
  refine ⟨before, node, after, e, hfirst, ?_⟩
  rw [hrun, hactions, Except.map]

/-- A sequence runs without an error from every first state exactly when it is
not empty, nests, begins with the start block, and all other nodes of its
program can run. If all of this holds but the last, a run that begins at the
goal fails at the first node that cannot run, with the error of that node. -/
theorem runBlocks_static_criterion (config : Config) (blocks : List Block) :
    ((∀ overrides, ∃ execution, runBlocks config overrides blocks = .ok execution) ↔
      ∃ first rest program, blocks = first :: rest ∧ Program.ofBlocks blocks = .ok program ∧
        first.tag = .known .start ∧ ∀ n ∈ program.preorder.tail, n.Runnable) ∧
    ∀ overrides first rest program, blocks = first :: rest →
      Program.ofBlocks blocks = .ok program → first.tag = .known .start →
      config.goalX ≤ overrides.character.x →
      ¬ (∀ n ∈ program.preorder.tail, n.Runnable) →
      ∃ before node after e, FirstFault program.preorder.tail before node after e ∧
        runBlocks config overrides blocks = .error e := by
  refine ⟨⟨fun hruns => ?_, ?_⟩, ?_⟩
  · obtain ⟨_, hdefault⟩ := hruns {}
    obtain ⟨first, rest, program, rfl, hprogram, hstart⟩ := exists_of_runBlocks_eq_ok hdefault
    refine ⟨first, rest, program, rfl, hprogram, hstart, ?_⟩
    refine Classical.byContradiction fun hrunnable => ?_
    -- A run that begins at the goal would fail.
    let overrides : Overrides := { x := some config.goalX }
    have hgoal : config.goalX ≤ overrides.character.x := Int64.le_refl config.goalX
    obtain ⟨-, -, -, e, -, herror⟩ := runBlocks_of_not_runnable hprogram hstart hgoal hrunnable
    obtain ⟨execution, hok⟩ := hruns overrides
    rw [hok] at herror
    cases herror
  · rintro ⟨first, rest, program, rfl, hprogram, hstart, hrunnable⟩ overrides
    exact runBlocks_of_runnable hprogram hstart hrunnable config overrides
  · rintro overrides first rest program rfl hprogram hstart hgoal hrunnable
    exact runBlocks_of_not_runnable hprogram hstart hgoal hrunnable

/-- At the goal, a second start in the body of a branch is come to before a loop
without a body. -/
theorem runBlocks_static_criterion_second_start :
    let config : Config := {}
    let overrides : Overrides := { x := some 4 }
    let first : Block := { tag := .known .start, id := "a" }
    let rest : List Block :=
      [{ tag := .known .branch, condition := some (.known .goalReached), id := "b" },
        { tag := .known .start, id := "c" },
        { tag := .known .close, id := "d" },
        { tag := .known .loop, id := "e" },
        { tag := .known .close, id := "f" }]
    let program : Program :=
      [.leaf (.known .start),
        ⟨{ tag := .known .branch, condition := some (.known .goalReached) },
          [.leaf (.known .start)]⟩,
        ⟨{ tag := .known .loop }, []⟩]
    Program.ofBlocks (first :: rest) = .ok program ∧ first.tag = .known .start ∧
      config.goalX ≤ overrides.character.x ∧ ¬ (∀ n ∈ program.preorder.tail, n.Runnable) ∧
      runBlocks config overrides (first :: rest) = .error .duplicateStart ∧
      ∃ before node after,
        FirstFault program.preorder.tail before node after .duplicateStart := by
  intro config overrides first rest program
  have hgoal : config.goalX ≤ overrides.character.x := by decide
  have hrunnable : ¬ ∀ n ∈ program.preorder.tail, n.Runnable := fun h =>
    (h (.leaf (.known .start)) (.tail _ (.head _))).not_start rfl
  have herror : runBlocks config overrides (first :: rest) = .error .duplicateStart := rfl
  obtain ⟨before, node, after, e, hfault, hrun⟩ :=
    (runBlocks_static_criterion config (first :: rest)).2 overrides first rest program rfl rfl rfl
      hgoal hrunnable
  obtain rfl := Except.error.inj (herror.symm.trans hrun)
  exact ⟨rfl, rfl, hgoal, hrunnable, herror, before, node, after, hfault⟩

end Blockwise
