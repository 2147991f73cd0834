import Mathlib.Data.List.Infix
import Blockwise.Proofs.Program.Preorder
import Blockwise.Proofs.Run.Walk

/-!
# Unrolling loops

`Program.unroll` writes the body of a loop out as often as the loop runs, in the
bodies of loops and branches as well. A loop without a body breaks a rule and is
kept, so that the rule is still broken.

A node and what is written for it have the same actions from every state
(`Node.actions_unroll`). That a loop runs at least once matters here: a body
that is not empty stays not empty (`Program.unroll_eq_nil_iff`), and the body of
a branch does something else when it is empty.
-/

namespace Blockwise

mutual

def Node.unroll : Node → Program
  | ⟨instruction, children⟩ =>
    if instruction.tag = .known .loop then
      if children.isEmpty then [⟨instruction, children⟩]
      else (List.replicate instruction.count (Program.unroll children)).flatten
    else if instruction.tag = .known .branch then [⟨instruction, Program.unroll children⟩]
    else [⟨instruction, children⟩]

def Program.unroll : Program → Program
  | [] => []
  | node :: rest => node.unroll ++ Program.unroll rest

end

variable {config : Config} {instruction : Instruction} {children : List Node}

namespace Program

@[simp] theorem unroll_nil : unroll [] = [] := by
  rw [unroll]

@[simp] theorem unroll_cons (node : Node) (rest : Program) :
    unroll (node :: rest) = node.unroll ++ unroll rest := by
  rw [unroll]

end Program

namespace Node

theorem unroll_loop_nil (htag : instruction.tag = .known .loop) :
    Node.unroll ⟨instruction, []⟩ = [⟨instruction, []⟩] := by
  rw [unroll, if_pos htag, if_pos List.isEmpty_nil]

theorem unroll_loop (htag : instruction.tag = .known .loop) (hchildren : children ≠ []) :
    Node.unroll ⟨instruction, children⟩ =
      (List.replicate instruction.count (Program.unroll children)).flatten := by
  have hempty : ¬ children.isEmpty := by rwa [List.isEmpty_iff]
  rw [unroll, if_pos htag, if_neg hempty]

theorem unroll_branch (htag : instruction.tag = .known .branch) :
    Node.unroll ⟨instruction, children⟩ = [⟨instruction, Program.unroll children⟩] := by
  have hloop : instruction.tag ≠ .known .loop := by
    rw [htag]
    decide
  rw [unroll, if_neg hloop, if_pos htag]

theorem unroll_of_ne (hloop : instruction.tag ≠ .known .loop)
    (hbranch : instruction.tag ≠ .known .branch) :
    Node.unroll ⟨instruction, children⟩ = [⟨instruction, children⟩] := by
  rw [unroll, if_neg hloop, if_neg hbranch]

theorem unroll_ne_nil (node : Node) : node.unroll ≠ [] := by
  induction node using Node.induction with
  | mk instruction children ih =>
    by_cases hloop : instruction.tag = .known .loop
    · cases children with
      | nil =>
        rw [unroll_loop_nil hloop]
        exact List.cons_ne_nil _ _
      | cons child rest =>
        obtain ⟨rounds, hcount⟩ := instruction.exists_count_eq_succ
        rw [unroll_loop hloop (List.cons_ne_nil _ _), hcount, List.replicate_succ,
          List.flatten_cons, Program.unroll_cons, List.append_assoc]
        exact List.append_ne_nil_of_left_ne_nil (ih child List.mem_cons_self) _
    · by_cases hbranch : instruction.tag = .known .branch
      · rw [unroll_branch hbranch]
        exact List.cons_ne_nil _ _
      · rw [unroll_of_ne hloop hbranch]
        exact List.cons_ne_nil _ _

end Node

theorem Program.unroll_eq_nil_iff (program : Program) : program.unroll = [] ↔ program = [] := by
  cases program with
  | nil => simp
  | cons node rest => simp [node.unroll_ne_nil]

/-! ## The same actions -/

/-- If the nodes of a list have the actions of what is written for them, so has
the list. -/
theorem Program.actions_unroll_of_forall {program : Program}
    (h : ∀ node ∈ program, ∀ c, Program.actions config node.unroll c = node.actions config c) :
    Program.actions config program.unroll = Program.actions config program := by
  induction program with
  | nil => rw [unroll_nil]
  | cons node rest ih =>
    obtain ⟨hnode, hrest⟩ := List.forall_mem_cons.1 h
    funext c
    rw [unroll_cons, actions_append, actions_cons, hnode, ih hrest]

/-- The actions of a branch depend on its body by what this does and by whether
there is one. -/
theorem Node.actions_branch_congr (htag : instruction.tag = .known .branch) {p q : Program}
    (hactions : Program.actions config p = Program.actions config q) (hnil : p = [] ↔ q = [])
    (c : Character) :
    Node.actions config ⟨instruction, p⟩ c = Node.actions config ⟨instruction, q⟩ c := by
  have hempty : p.isEmpty = q.isEmpty := by
    rw [Bool.eq_iff_iff, List.isEmpty_iff, List.isEmpty_iff, hnil]
  rw [Node.actions, Node.actions]
  simp only [htag, hactions, hempty]

theorem Program.actions_singleton (config : Config) (node : Node) (c : Character) :
    Program.actions config [node] c = node.actions config c := by
  rw [actions_cons]
  cases node.actions config c with
  | error e => rfl
  | ok first => simp [Except.bind, Except.map]

theorem Node.actions_unroll (config : Config) (node : Node) (c : Character) :
    Program.actions config node.unroll c = node.actions config c := by
  induction node using Node.induction generalizing c with
  | mk instruction children ih =>
    have hbody := Program.actions_unroll_of_forall ih
    by_cases hloop : instruction.tag = .known .loop
    · by_cases hchildren : children = []
      · rw [hchildren, unroll_loop_nil hloop, Program.actions_singleton]
      · -- Both sides are the rounds of a body, and the bodies have the same actions.
        rw [unroll_loop hloop hchildren, actions_loop hloop hchildren,
          ← repeatActions_eq_actions, ← repeatActions_eq_actions, hbody]
    · by_cases hbranch : instruction.tag = .known .branch
      · rw [unroll_branch hbranch, Program.actions_singleton]
        exact actions_branch_congr hbranch hbody (Program.unroll_eq_nil_iff children) c
      · rw [unroll_of_ne hloop hbranch, Program.actions_singleton]

theorem Program.actions_unroll (config : Config) (program : Program) :
    Program.actions config program.unroll = Program.actions config program :=
  actions_unroll_of_forall fun node _ => node.actions_unroll config

/-- Unrolling the loops of a program that begins with the start block changes
nothing about its runs: the final state and every frame are the same, or the
error is. -/
theorem run_unroll (config : Config) (overrides : Overrides) {program : Program}
    (hstart : ∃ first rest, program = first :: rest ∧ first.tag = .known .start) :
    Program.run config overrides.character program.unroll =
      Program.run config overrides.character program := by
  obtain ⟨⟨instruction, children⟩, rest, rfl, htag⟩ := hstart
  have hstart : instruction.tag = .known .start := htag
  have hfirst : Node.unroll ⟨instruction, children⟩ = [⟨instruction, children⟩] := by
    apply Node.unroll_of_ne <;> rw [hstart] <;> decide
  rw [Program.unroll_cons, hfirst, List.singleton_append, Program.run_start htag,
    Program.run_start htag, Program.actions_unroll]

/-- A loop in a branch in a loop, from the right end of the range. -/
theorem run_unroll_nested :
    let config : Config := { goalX := 1, recordTrace := true }
    let overrides : Overrides := { x := some Int64.maxValue }
    let program : Program :=
      [.leaf (.known .start),
        ⟨{ tag := .known .loop, loopCount := some 2 },
          [.leaf (.known .jump),
            ⟨{ tag := .known .branch, condition := some (.known .goalReached) },
              [⟨{ tag := .known .loop, loopCount := some 0.5 }, [.leaf (.known .move)]⟩]⟩]⟩]
    let branch (body : Program) : Node :=
      ⟨{ tag := .known .branch, condition := some (.known .goalReached) }, body⟩
    let first : Character := { x := Int64.maxValue }
    let risen : Character := { first with y := 50, maxY := 50, jumpCount := 1 }
    let moved : Character := { risen with y := 0, moveTotal := 1 }
    let again : Character := { moved with y := 50, jumpCount := 2 }
    let final : Character := { again with y := 0, moveTotal := 2 }
    let frames : List Character :=
      [first, first, risen, { risen with y := 0 }, moved, again, { again with y := 0 }, final]
    (∃ first rest, program = first :: rest ∧ first.tag = .known .start) ∧
      program.unroll =
        [.leaf (.known .start), .leaf (.known .jump), branch [.leaf (.known .move)],
          .leaf (.known .jump), branch [.leaf (.known .move)]] ∧
      Program.run config overrides.character program = .ok { final, trace := some frames } ∧
      Program.run config overrides.character program.unroll =
        .ok { final, trace := some frames } := by
  intro config overrides program branch first risen moved again final frames
  have hstart : ∃ first rest, program = first :: rest ∧ first.tag = .known .start :=
    ⟨_, _, rfl, rfl⟩
  have hrun : Program.run config overrides.character program =
      .ok { final, trace := some frames } := by
    decide
  exact ⟨hstart, rfl, hrun, (run_unroll config overrides hstart).trans hrun⟩

/-- Rounds of nested loops are multiplied. -/
example :
    Program.unroll [⟨{ tag := .known .loop, loopCount := some 2 },
      [⟨{ tag := .known .loop, loopCount := some 3 }, [.leaf (.known .move)]⟩]⟩] =
    List.replicate 6 (.leaf (.known .move)) := rfl

end Blockwise
