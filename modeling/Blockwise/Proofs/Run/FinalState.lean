import Blockwise.Proofs.Character.Tally
import Blockwise.Proofs.Run.Trace

/-!
# The final state of a run

However its loops and branches lie in each other, a run that succeeds has
performed some moves and some jumps and has said something. These numbers and
the first state are all that the final state and the length of the trace depend
on.
-/

namespace Blockwise

/-- The final state of a run that succeeds, and the number of its frames if they
are kept, from the numbers of moves and jumps that the nodes behind the start
block have performed and from what they have said. -/
theorem exists_tally_of_run {config : Config} {overrides : Overrides} {program : Program}
    {execution : Execution}
    (hrun : Program.run config overrides.character program = .ok execution) :
    ∃ actions, Program.actions config program.tail overrides.character = .ok actions ∧
      (∀ text ∈ spoken actions,
        text ∈ ["Hello!", "I made it!", "Jump success!", "Goal reached!"]) ∧
      Tally config.jumpHeight overrides.character (actions.count .move) (actions.count .jump)
        (spoken actions) execution.final ∧
      (config.recordTrace = true → ∃ frames, execution.trace = some frames ∧
        frames.length =
          2 + actions.count .move + 2 * actions.count .jump + (spoken actions).length) := by
  obtain ⟨first, rest, actions, rfl, -, hactions, rfl⟩ := Program.exists_actions_of_run_eq_ok hrun
  refine ⟨actions, hactions, fun text htext => ?_, Character.tally_after .., fun hrecord => ?_⟩
  · obtain ⟨message, rfl⟩ := exists_message_of_mem_spoken htext
    exact message.text_mem
  · refine ⟨_, Execution.trace_ofActions hrecord _ actions, ?_⟩
    rw [List.length_cons, List.length_cons, Character.length_trail]
    omega

/-- Two rounds of a jump downwards, a move and a message, one step before the
right end of the range and one jump before the end of the counter. -/
theorem exists_tally_of_run_two_rounds :
    let config : Config := { goalX := 0, jumpHeight := -7, recordTrace := true }
    let overrides : Overrides :=
      { x := some (Int64.maxValue - 1), y := some 3, maxY := some (-2),
        jumpCount := some (Int64.maxValue - 1), messages := some ["Hi!"] }
    let program : Program :=
      [.leaf (.known .start),
        ⟨{ tag := .known .loop, loopCount := some 2 },
          [.leaf (.known .jump), .leaf (.known .move),
            ⟨{ tag := .known .branch, condition := some (.known .goalReached) }, []⟩]⟩]
    let first : Character :=
      { x := Int64.maxValue - 1, y := 3, maxY := 3, jumpCount := Int64.maxValue - 1,
        messages := ["Hi!"] }
    let risen : Character := { first with y := -4, minY := -4, jumpCount := Int64.maxValue }
    let moved : Character := { risen with x := Int64.maxValue, y := 0, moveTotal := 1 }
    let there : Character := { moved with messages := ["Hi!", "Goal reached!"] }
    let again : Character := { there with y := -7, minY := -7 }
    let last : Character := { again with y := 0, moveTotal := 2 }
    let final : Character := { last with messages := ["Hi!", "Goal reached!", "Goal reached!"] }
    let frames : List Character :=
      [first, first, risen, { risen with y := 0 }, moved, there, again, { again with y := 0 },
        last, final]
    Program.run config overrides.character program = .ok { final, trace := some frames } ∧
      ∃ actions, Program.actions config program.tail overrides.character = .ok actions ∧
        (∀ text ∈ spoken actions,
          text ∈ ["Hello!", "I made it!", "Jump success!", "Goal reached!"]) ∧
        Tally config.jumpHeight overrides.character (actions.count .move) (actions.count .jump)
          (spoken actions) final ∧
        frames.length =
          2 + actions.count .move + 2 * actions.count .jump + (spoken actions).length := by
  intro config overrides program first risen moved there again last final frames
  have hrun : Program.run config overrides.character program =
      .ok { final, trace := some frames } := by
    decide
  obtain ⟨actions, hactions, hspoken, htally, hframes⟩ := exists_tally_of_run hrun
  obtain ⟨_, ⟨⟩, hlength⟩ := hframes rfl
  exact ⟨hrun, actions, hactions, hspoken, htally, hlength⟩

end Blockwise
