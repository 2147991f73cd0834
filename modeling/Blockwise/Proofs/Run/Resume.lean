import Blockwise.Proofs.Run.Trace

/-!
# Resuming a run

A longer program first does what its first part does. If the first part breaks a
rule, so does the longer program; otherwise the rest of it acts from the state
in which the first part left the character (`Program.run_append`). That state is
all that the rest depends on: its height lies between its extremes, so overrides
can fix it exactly as it is, and a run of the rest from there goes on where the
run of the first part has stopped.
-/

namespace Blockwise

variable {config : Config} {c : Character}

theorem Execution.final_ofActions_append (config : Config) (c : Character)
    (first others : List Action) :
    (Execution.ofActions config c (first ++ others)).final =
      (Execution.ofActions config (c.after config.jumpHeight first) others).final :=
  Character.after_append config.jumpHeight c first others

theorem Program.run_append {start : Node} (htag : start.tag = .known .start) {p : Program}
    {first : List Action} (hp : Program.actions config p c = .ok first) (q : Program) :
    run config c (start :: p ++ q) =
      (Program.actions config q (c.after config.jumpHeight first)).map fun others =>
        Execution.ofActions config c (first ++ others) := by
  rw [List.cons_append, run_start htag, actions_append, hp]
  change Except.map _ (Except.map _ _) = _
  cases Program.actions config q (c.after config.jumpHeight first) <;> rfl

theorem Program.run_append_eq_error {start : Node} (htag : start.tag = .known .start)
    {p : Program} {e : RunError} (h : run config c (start :: p) = .error e) (q : Program) :
    run config c (start :: p ++ q) = .error e := by
  rw [run_start htag] at h
  rw [List.cons_append, run_start htag, actions_append, eq_error_of_map_eq_error h]
  rfl

/-- A run can be cut in two behind any node. If the first part fails, the whole
run fails in the same way. If it succeeds, the whole run ends as a run of the
second part does that begins with every part of the state fixed as the first
part has left it. The frames of the whole run are those of the first part,
followed by those of the second part without the first two, which show the state
from which it was resumed. -/
theorem run_append_resumed (config : Config) (overrides : Overrides) (p q : Program) :
    let start := Node.leaf (.known .start)
    (∀ e, Program.run config overrides.character (start :: p) = .error e →
      Program.run config overrides.character (start :: p ++ q) = .error e) ∧
    ∀ first, Program.run config overrides.character (start :: p) = .ok first →
      (Program.run config overrides.character (start :: p ++ q)).map Execution.final =
        (Program.run config first.final.overrides.character (start :: q)).map Execution.final ∧
      ∀ whole resumed, config.recordTrace = true →
        Program.run config overrides.character (start :: p ++ q) = .ok whole →
        Program.run config first.final.overrides.character (start :: q) = .ok resumed →
        ∃ before after, first.trace = some before ∧ resumed.trace = some after ∧
          whole.trace = some (before ++ after.drop 2) := by
  intro start
  have htag : start.tag = .known .start := rfl
  refine ⟨fun e h => Program.run_append_eq_error htag h q, fun execution h => ?_⟩
  obtain ⟨first, hfirst, rfl⟩ := (Program.run_start_eq_ok_iff htag).1 h
  have hresumed : (Execution.ofActions config overrides.character first).final.overrides.character =
      overrides.character.after config.jumpHeight first :=
    ((Character.withinExtremes_character overrides).after _ first).character_overrides
  rw [Program.run_append htag hfirst, hresumed]
  constructor
  · rw [Program.run_start htag]
    cases Program.actions config q (overrides.character.after config.jumpHeight first) with
    | error e => rfl
    | ok others => exact congrArg Except.ok (Execution.final_ofActions_append ..)
  · intro whole resumed hrecord hwhole hresumed
    obtain ⟨others, hothers, rfl⟩ := (Program.run_start_eq_ok_iff htag).1 hresumed
    rw [hothers] at hwhole
    obtain rfl := Except.ok.inj hwhole
    refine ⟨_, _, Execution.trace_ofActions hrecord _ first,
      Execution.trace_ofActions hrecord _ others, ?_⟩
    rw [Execution.trace_ofActions hrecord, Character.trail_append]
    rfl

/-- Two moves, cut off from a branch with a jump; and a loop without a body,
which fails whatever comes behind it. -/
theorem run_append_resumed_loop_then_branch :
    let config : Config := { goalX := 2, jumpHeight := -5, recordTrace := true }
    let overrides : Overrides := { y := some 3, maxY := some (-2) }
    let start := Node.leaf (.known .start)
    let p : Program := [⟨{ tag := .known .loop, loopCount := some 2 }, [.leaf (.known .move)]⟩]
    let q : Program :=
      [⟨{ tag := .known .branch, condition := some (.known .goalReached) },
        [.leaf (.known .jump)]⟩]
    let hollow : Program := [⟨{ tag := .known .loop }, []⟩]
    let first : Character := { y := 3, maxY := 3 }
    let moved : Character := { first with x := 1, moveTotal := 1 }
    let there : Character := { first with x := 2, moveTotal := 2 }
    let risen : Character := { there with y := -2, minY := -2, jumpCount := 1 }
    let final : Character := { risen with y := 0 }
    let begun : Execution := { final := there, trace := some [first, first, moved, there] }
    let whole : Execution :=
      { final, trace := some [first, first, moved, there, risen, final] }
    let resumed : Execution := { final, trace := some [there, there, risen, final] }
    (Program.run config overrides.character (start :: hollow) = .error .emptyLoop ∧
      Program.run config overrides.character (start :: hollow ++ q) = .error .emptyLoop) ∧
    Program.run config overrides.character (start :: p) = .ok begun ∧
    Program.run config overrides.character (start :: p ++ q) = .ok whole ∧
    Program.run config there.overrides.character (start :: q) = .ok resumed ∧
    (Program.run config overrides.character (start :: p ++ q)).map Execution.final =
      (Program.run config there.overrides.character (start :: q)).map Execution.final ∧
    ∃ before after, begun.trace = some before ∧ resumed.trace = some after ∧
      whole.trace = some (before ++ after.drop 2) := by
  intro config overrides start p q hollow first moved there risen final begun whole resumed
  have hhollow : Program.run config overrides.character (start :: hollow) = .error .emptyLoop := by
    decide
  have hbegun : Program.run config overrides.character (start :: p) = .ok begun := by decide
  have hwhole : Program.run config overrides.character (start :: p ++ q) = .ok whole := by decide
  have hresumed : Program.run config there.overrides.character (start :: q) = .ok resumed := by
    decide
  obtain ⟨hfinal, htrace⟩ := (run_append_resumed config overrides p q).2 begun hbegun
  exact ⟨⟨hhollow, (run_append_resumed config overrides hollow q).1 _ hhollow⟩, hbegun, hwhole,
    hresumed, hfinal, htrace whole resumed rfl hwhole hresumed⟩

end Blockwise
