import Mathlib.Algebra.Group.Nat.Defs
import Blockwise.Proofs.Program.Ancestry
import Blockwise.Proofs.Run.Trace

/-!
# The length of a run

Only loops make a run longer than its program, and a loop runs no more than
`LoopCount.most` rounds whatever count is stored on it. So the length of a trace
is bounded by the number of nodes and by how deep loops lie in each other.

The bound has two parts, and between them stands `Program.visits`, the number of
times that a run comes to a node if it enters the bodies of all branches. A run
performs at most one action at each visit (`Program.length_actions_le_visits`),
and a node in `k` loops is visited at most `LoopCount.most ^ k` times
(`Program.visits_le`).
-/

namespace Blockwise

/-! ## Visits -/

/-- How often a run goes through the body of a node that has this instruction. -/
def Instruction.rounds (instruction : Instruction) : Nat :=
  if instruction.tag = .known .loop then instruction.count else 1

mutual

/-- The number of times that a run comes to a node or to a node of its body, if it
enters the bodies of all branches. -/
def Node.visits : Node → Nat
  | ⟨instruction, children⟩ => 1 + instruction.rounds * Program.visits children

def Program.visits : Program → Nat
  | [] => 0
  | node :: rest => node.visits + Program.visits rest

end

theorem Instruction.rounds_loop {instruction : Instruction} (htag : instruction.tag = .known .loop) :
    instruction.rounds = instruction.count :=
  if_pos htag

theorem Instruction.rounds_of_ne {instruction : Instruction}
    (htag : instruction.tag ≠ .known .loop) : instruction.rounds = 1 :=
  if_neg htag

theorem Node.visits_eq (node : Node) :
    node.visits = 1 + node.instruction.rounds * Program.visits node.children := by
  obtain ⟨instruction, children⟩ := node
  rw [Node.visits]

theorem Node.one_le_visits (node : Node) : 1 ≤ node.visits := by
  rw [visits_eq]
  exact Nat.le_add_right 1 _

namespace Program

@[simp] theorem visits_nil : visits [] = 0 := by
  rw [visits]

@[simp] theorem visits_cons (node : Node) (rest : Program) :
    visits (node :: rest) = node.visits + visits rest := by
  rw [visits]

theorem visits_append (p q : Program) : visits (p ++ q) = visits p + visits q := by
  induction p with
  | nil => simp
  | cons node rest ih => rw [List.cons_append, visits_cons, visits_cons, ih, Nat.add_assoc]

theorem visits_flatten_replicate (n : Nat) (body : Program) :
    visits (List.replicate n body).flatten = n * visits body := by
  induction n with
  | zero => simp
  | succ n ih =>
    rw [List.replicate_succ, List.flatten_cons, visits_append, ih, Nat.succ_mul, Nat.add_comm]

end Program

/-! ## One action at each visit -/

section

variable {config : Config} {c : Character} {actions : List Action}

/-- If no node of a list performs more actions than it has visits, neither does the
list. -/
theorem Program.length_actions_le_of_forall {program : Program}
    (hnodes : ∀ node ∈ program, ∀ c actions, node.actions config c = .ok actions →
      actions.length ≤ node.visits)
    (hactions : Program.actions config program c = .ok actions) :
    actions.length ≤ program.visits := by
  induction program generalizing c actions with
  | nil =>
    rw [actions_nil] at hactions
    obtain rfl := Except.ok.inj hactions
    exact Nat.zero_le _
  | cons node rest ih =>
    obtain ⟨hnode, hrest⟩ := List.forall_mem_cons.1 hnodes
    rw [actions_cons] at hactions
    obtain ⟨first, others, hfirst, hothers, rfl⟩ := bind_map_append_eq_ok_iff.1 hactions
    rw [List.length_append, visits_cons]
    exact Nat.add_le_add (hnode c first hfirst) (ih hrest hothers)

/-- A node that is no loop and no branch performs at most one action. -/
theorem Node.length_actions_le_one {instruction : Instruction} {children : List Node}
    (hloop : instruction.tag ≠ .known .loop) (hbranch : instruction.tag ≠ .known .branch)
    (hactions : Node.actions config ⟨instruction, children⟩ c = .ok actions) :
    actions.length ≤ 1 := by
  rw [Node.actions] at hactions
  cases htag : instruction.tag with
  | unknown text =>
    simp only [htag] at hactions
    cases hactions
  | known kind =>
    simp only [htag] at hactions
    cases kind with
    | loop => exact absurd htag hloop
    | branch => exact absurd htag hbranch
    | start | goalReached => cases hactions
    | move | jump | say | close =>
      obtain rfl := Except.ok.inj hactions
      simp

theorem Node.length_actions_le_visits {node : Node}
    (hactions : node.actions config c = .ok actions) : actions.length ≤ node.visits := by
  induction node using Node.induction generalizing c actions with
  | mk instruction children ih =>
    by_cases hloop : instruction.tag = .known .loop
    · by_cases hchildren : children = []
      · subst hchildren
        rw [actions_loop_nil hloop] at hactions
        cases hactions
      · -- The rounds of a loop are a list of nodes of its body.
        rw [actions_loop hloop hchildren] at hactions
        have hrounds : actions.length ≤
            Program.visits (List.replicate instruction.count children).flatten :=
          Program.length_actions_le_of_forall
            (fun child hchild _ _ => ih child (mem_of_mem_flatten_replicate hchild)) hactions
        rw [Program.visits_flatten_replicate] at hrounds
        rw [visits_eq, Instruction.rounds_loop hloop]
        exact Nat.le_add_left_of_le hrounds
    · by_cases hbranch : instruction.tag = .known .branch
      · rw [actions_branch hbranch (condition_of_branch_eq_ok hbranch hactions)] at hactions
        split at hactions
        · obtain rfl := Except.ok.inj hactions
          exact Nat.zero_le _
        · split at hactions
          · obtain rfl := Except.ok.inj hactions
            exact Node.one_le_visits _
          · have hbody : actions.length ≤ Program.visits children :=
              Program.length_actions_le_of_forall (fun child hchild _ _ => ih child hchild) hactions
            rw [visits_eq, Instruction.rounds_of_ne hloop, Nat.one_mul]
            exact Nat.le_add_left_of_le hbody
      · exact Nat.le_trans (length_actions_le_one hloop hbranch hactions) (Node.one_le_visits _)

theorem Program.length_actions_le_visits {program : Program}
    (hactions : Program.actions config program c = .ok actions) :
    actions.length ≤ program.visits :=
  length_actions_le_of_forall (fun _ _ _ _ => Node.length_actions_le_visits) hactions

end

theorem Action.length_frames_le (height : Int64) (c : Character) (action : Action) :
    (action.frames height c).length ≤ 2 := by
  cases action <;> simp [frames]

theorem Character.length_trail_le (height : Int64) (c : Character) (actions : List Action) :
    (c.trail height actions).length ≤ 2 * actions.length := by
  induction actions generalizing c with
  | nil => exact Nat.le_refl 0
  | cons action rest ih =>
    have hfirst := action.length_frames_le height c
    have hrest := ih (action.result height c)
    rw [trail, List.length_append, List.length_cons]
    omega

/-! ## Visits and loops -/

/-- In how many loops a node with these ancestors lies. -/
def loopsAround (ancestors : List Node) : Nat :=
  ancestors.countP fun a => a.tag = .known .loop

@[simp] theorem loopsAround_nil : loopsAround [] = 0 := rfl

/-- A node of a body lies in one more loop than the node itself if the body is that of
a loop. -/
theorem rounds_mul_pow_le (node : Node) (ancestors : List Node) :
    node.instruction.rounds * LoopCount.most ^ loopsAround ancestors ≤
      LoopCount.most ^ loopsAround (node :: ancestors) := by
  by_cases hloop : node.tag = .known .loop
  · have hcons : loopsAround (node :: ancestors) = loopsAround ancestors + 1 :=
      List.countP_cons_of_pos (decide_eq_true hloop)
    rw [Instruction.rounds_loop hloop, hcons, Nat.pow_succ, Nat.mul_comm]
    exact Nat.mul_le_mul_left _ (LoopCount.normalize_le_most _)
  · have hcons : loopsAround (node :: ancestors) = loopsAround ancestors :=
      List.countP_cons_of_neg (by simpa using hloop)
    rw [Instruction.rounds_of_ne hloop, hcons, Nat.one_mul]

theorem Program.visits_mul_pow_le_of_forall {program : Program} {ancestors : List Node}
    {depth : Nat}
    (h : ∀ node ∈ program, node.visits * LoopCount.most ^ loopsAround ancestors ≤
      node.preorder.length * LoopCount.most ^ depth) :
    program.visits * LoopCount.most ^ loopsAround ancestors ≤
      program.preorder.length * LoopCount.most ^ depth := by
  induction program with
  | nil => simp
  | cons node rest ih =>
    obtain ⟨hnode, hrest⟩ := List.forall_mem_cons.1 h
    rw [visits_cons, preorder_cons, List.length_append, Nat.add_mul, Nat.add_mul]
    exact Nat.add_le_add hnode (ih hrest)

/-- What a node adds to the visits of the program that it is part of: its own visits, once
for each round that the loops around it can run. -/
theorem Node.visits_mul_pow_le {node : Node} {ancestors : List Node} {depth : Nat}
    (hdepth : ∀ lineage ∈ node.lineages ancestors, loopsAround lineage.1 ≤ depth) :
    node.visits * LoopCount.most ^ loopsAround ancestors ≤
      node.preorder.length * LoopCount.most ^ depth := by
  induction node using Node.induction generalizing ancestors with
  | mk instruction children ih =>
    rw [lineages_eq, List.forall_mem_cons] at hdepth
    obtain ⟨hself, hbelow⟩ := hdepth
    have hbody := Program.visits_mul_pow_le_of_forall fun child hchild =>
      ih child hchild fun lineage hlineage =>
        hbelow lineage (Program.mem_lineages.2 ⟨child, hchild, hlineage⟩)
    have hpow : LoopCount.most ^ loopsAround ancestors ≤ LoopCount.most ^ depth :=
      Nat.pow_le_pow_right (by decide) hself
    rw [visits_eq, preorder_eq, List.length_cons]
    -- The rounds of a loop go into the power: its body has one loop more around it.
    calc
      (1 + instruction.rounds * Program.visits children) *
            LoopCount.most ^ loopsAround ancestors =
          LoopCount.most ^ loopsAround ancestors +
            Program.visits children *
              (instruction.rounds * LoopCount.most ^ loopsAround ancestors) := by
        rw [Nat.add_mul, Nat.one_mul, Nat.mul_comm instruction.rounds, Nat.mul_assoc]
      _ ≤ LoopCount.most ^ depth +
            Program.visits children *
              LoopCount.most ^ loopsAround (⟨instruction, children⟩ :: ancestors) :=
        Nat.add_le_add hpow
          (Nat.mul_le_mul_left _ (rounds_mul_pow_le ⟨instruction, children⟩ ancestors))
      _ ≤ LoopCount.most ^ depth + (Program.preorder children).length * LoopCount.most ^ depth :=
        Nat.add_le_add_left hbody _
      _ = ((Program.preorder children).length + 1) * LoopCount.most ^ depth := by
        rw [Nat.succ_mul, Nat.add_comm]

/-- In a program whose loops lie at most `depth` deep in each other, the nodes are visited
`LoopCount.most ^ depth` times each, or less often. -/
theorem Program.visits_le {program : Program} {depth : Nat}
    (hdepth : ∀ lineage ∈ program.lineages [], loopsAround lineage.1 ≤ depth) :
    program.visits ≤ program.preorder.length * LoopCount.most ^ depth := by
  have hvisits := Program.visits_mul_pow_le_of_forall fun node hnode =>
    Node.visits_mul_pow_le fun lineage hlineage =>
      hdepth lineage (Program.mem_lineages.2 ⟨node, hnode, hlineage⟩)
  rwa [loopsAround_nil, Nat.pow_zero, Nat.mul_one] at hvisits

/-! ## Recorded runs -/

/-- A recorded run has at most two frames for each visit. The two that show the first state
are those of the start block. -/
theorem Program.length_trace_le_visits {config : Config} {c : Character} {program : Program}
    {execution : Execution} (hrecord : config.recordTrace = true)
    (hrun : Program.run config c program = .ok execution) :
    ∃ frames, execution.trace = some frames ∧ frames.length ≤ 2 * program.visits := by
  obtain ⟨first, rest, actions, rfl, -, hactions, rfl⟩ := exists_actions_of_run_eq_ok hrun
  refine ⟨_, Execution.trace_ofActions hrecord c actions, ?_⟩
  have htrail := c.length_trail_le config.jumpHeight actions
  have hvisits := length_actions_le_visits hactions
  have hfirst := first.one_le_visits
  rw [List.length_cons, List.length_cons, visits_cons]
  omega

/-- The trace of a run that succeeds is bounded by the number of nodes of the program and by
the number of loops that lie in each other, whatever counts are stored on them. -/
theorem length_trace_le {config : Config} {overrides : Overrides} {program : Program}
    {execution : Execution} {depth : Nat} (hrecord : config.recordTrace = true)
    (hdepth : ∀ lineage ∈ program.lineages [], loopsAround lineage.1 ≤ depth)
    (hrun : Program.run config overrides.character program = .ok execution) :
    ∃ frames, execution.trace = some frames ∧
      frames.length ≤ 1 + 2 * program.preorder.length * 10 ^ depth := by
  obtain ⟨frames, htrace, hlength⟩ := Program.length_trace_le_visits hrecord hrun
  have hvisits : program.visits ≤ program.preorder.length * 10 ^ depth := Program.visits_le hdepth
  refine ⟨frames, htrace, ?_⟩
  calc
    frames.length ≤ 2 * program.visits := hlength
    _ ≤ 2 * (program.preorder.length * 10 ^ depth) := Nat.mul_le_mul_left 2 hvisits
    _ = 2 * program.preorder.length * 10 ^ depth := (Nat.mul_assoc ..).symm
    _ ≤ 1 + 2 * program.preorder.length * 10 ^ depth := Nat.le_add_left _ 1

/-- A huge count around a negative one, a count that is no number, and a missing one. -/
theorem length_trace_le_odd_counts :
    let config : Config := { goalX := 0, jumpHeight := -5, recordTrace := true }
    let overrides : Overrides := { y := some 3 }
    let program : Program :=
      [.leaf (.known .start),
        ⟨{ tag := .known .loop, loopCount := some 1e22 },
          [⟨{ tag := .known .branch, condition := some (.known .goalReached) },
            [⟨{ tag := .known .loop, loopCount := some (-7.5) }, [.leaf (.known .jump)]⟩]⟩]⟩,
        ⟨{ tag := .known .loop, loopCount := some (0 / 0) }, [.leaf (.known .move)]⟩,
        ⟨{ tag := .known .loop }, [.leaf (.known .move)]⟩]
    let first : Character := { y := 3, maxY := 3 }
    let risen : Character := { y := -2, maxY := 3, minY := -2, jumpCount := 1 }
    let jump (n : Int64) : List Character :=
      let lower : Character := { y := -5, maxY := 3, minY := -5, jumpCount := n }
      [lower, { lower with y := 0 }]
    let moved (n : Int64) : Character :=
      { x := n, moveTotal := n, maxY := 3, minY := -5, jumpCount := 10 }
    let frames : List Character :=
      [first, first, risen, { risen with y := 0 }] ++
        [2, 3, 4, 5, 6, 7, 8, 9, 10].flatMap jump ++ [1, 2, 3, 4, 5, 6, 7, 8].map moved
    config.recordTrace = true ∧
      (∀ lineage ∈ program.lineages [], loopsAround lineage.1 ≤ 2) ∧
      Program.run config overrides.character program =
        .ok { final := moved 8, trace := some frames } ∧
      frames.length = 30 ∧ program.preorder.length = 9 ∧ 30 ≤ 1 + 2 * 9 * 10 ^ 2 := by
  intro config overrides program first risen jump moved frames
  have hdepth : ∀ lineage ∈ program.lineages [], loopsAround lineage.1 ≤ 2 := by decide
  have hrun : Program.run config overrides.character program =
      .ok { final := moved 8, trace := some frames } := by
    decide +kernel
  obtain ⟨_, ⟨⟩, hlength⟩ := length_trace_le rfl hdepth hrun
  exact ⟨rfl, hdepth, hrun, rfl, rfl, hlength⟩

end Blockwise
