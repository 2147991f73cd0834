import Blockwise.Proofs.Character.Path
import Blockwise.Proofs.Run.Walk

/-!
# Recorded traces

The trace of a run shows the first state twice, and then the trail of the
actions of the run. So it is a legal path, and each of its frames follows the
one before it. That no change of the state is left out and none is made up is
what `exists_legalTrace` says; the bounds on heights and counters are read off
the path.
-/

namespace Blockwise

/-- The frames of a run from `first` to `final`. -/
structure LegalTrace (height : Int64) (first final : Character) (frames : List Character) :
    Prop where
  /-- The first two frames show the first state. All others come in groups, each
  of which is a primitive step from the frame before it. -/
  path : ∃ rest, frames = first :: first :: rest ∧ LegalPath height first rest
  last : frames.getLast? = some final
  minY_le : ∀ frame ∈ frames, frame.minY ≤ frame.y
  le_maxY : ∀ frame ∈ frames, frame.y ≤ frame.maxY
  /-- The upper extreme is the highest of the first one and of all heights so
  far. -/
  maxY_eq : ∀ before frame after, frames = before ++ frame :: after →
    frame.maxY = ((before ++ [frame]).map Character.y).foldl max first.maxY
  /-- The lower extreme is the lowest of the first one and of all heights so far. -/
  minY_eq : ∀ before frame after, frames = before ++ frame :: after →
    frame.minY = ((before ++ [frame]).map Character.y).foldl min first.minY
  x_le : frames.Pairwise fun earlier later => earlier.x ≤ later.x
  moveTotal_le : frames.Pairwise fun earlier later => earlier.moveTotal ≤ later.moveTotal
  jumpCount_le : frames.Pairwise fun earlier later => earlier.jumpCount ≤ later.jumpCount
  messages_isPrefix :
    frames.Pairwise fun earlier later => earlier.messages <+: later.messages

theorem LegalPath.legalTrace {height : Int64} {first final : Character}
    {rest : List Character} (h : LegalPath height first rest) (hfirst : first.WithinExtremes)
    (hlast : (first :: rest).getLast? = some final) :
    LegalTrace height first final (first :: first :: rest) := by
  have hchain : (first :: first :: rest).IsChain Character.Follows :=
    List.isChain_cons_cons.2 ⟨hfirst.follows_self, h.isChain_follows hfirst⟩
  have hwithin := hfirst.of_isChain hchain
  have hprecedes := (hchain.imp fun _ _ h => h.toPrecedes).pairwise
  exact
    { path := ⟨rest, rfl, h⟩
      last := by rw [List.getLast?_cons_cons, hlast]
      minY_le := fun frame hframe => (hwithin frame hframe).minY_le
      le_maxY := fun frame hframe => (hwithin frame hframe).le_maxY
      maxY_eq := fun _ _ _ hsplit =>
        eq_foldl_of_isChain (fun _ _ h => h.maxY_eq) hchain hfirst.max_maxY_y.symm hsplit
      minY_eq := fun _ _ _ hsplit =>
        eq_foldl_of_isChain (fun _ _ h => h.minY_eq) hchain hfirst.min_minY_y.symm hsplit
      x_le := hprecedes.imp fun h => h.x
      moveTotal_le := hprecedes.imp fun h => h.moveTotal
      jumpCount_le := hprecedes.imp fun h => h.jumpCount
      messages_isPrefix := hprecedes.imp fun h => h.messages }

theorem Execution.trace_ofActions {config : Config} (h : config.recordTrace = true)
    (c : Character) (actions : List Action) :
    (Execution.ofActions config c actions).trace =
      some (c :: c :: c.trail config.jumpHeight actions) :=
  if_pos h

/-- If frames are kept, those of a run that succeeds are a legal trace from its
first to its final state. -/
theorem exists_legalTrace {config : Config} {overrides : Overrides} {program : Program}
    {execution : Execution} (hrecord : config.recordTrace = true)
    (hrun : Program.run config overrides.character program = .ok execution) :
    ∃ frames, execution.trace = some frames ∧
      LegalTrace config.jumpHeight overrides.character execution.final frames := by
  obtain ⟨first, rest, actions, -, -, -, rfl⟩ := Program.exists_actions_of_run_eq_ok hrun
  have hpath := legalPath_trail config.jumpHeight overrides.character actions
  exact ⟨_, Execution.trace_ofActions hrecord _ actions,
    hpath.legalTrace (Character.withinExtremes_character overrides)
      (getLast?_cons_trail config.jumpHeight _ actions)⟩

/-- Two jumps downwards in a loop, a branch and a move, from the right end of
the range and with extremes that are given the wrong way round. -/
theorem exists_legalTrace_inverted_extremes :
    let config : Config := { goalX := 0, jumpHeight := -5, recordTrace := true }
    let overrides : Overrides :=
      { x := some Int64.maxValue, y := some 3, maxY := some (-2), minY := some 7 }
    let program : Program :=
      [.leaf (.known .start),
        ⟨{ tag := .known .loop, loopCount := some 2 }, [.leaf (.known .jump)]⟩,
        ⟨{ tag := .known .branch, condition := some (.known .goalReached) }, []⟩,
        .leaf (.known .move)]
    let first : Character := { x := Int64.maxValue, y := 3, maxY := 3, minY := 3 }
    let risen : Character := { first with y := -2, minY := -2, jumpCount := 1 }
    let lower : Character := { risen with y := -5, minY := -5, jumpCount := 2 }
    let there : Character := { lower with y := 0, messages := ["Goal reached!"] }
    let final : Character := { there with moveTotal := 1 }
    let frames : List Character :=
      [first, first, risen, { risen with y := 0 }, lower, { lower with y := 0 }, there, final]
    config.recordTrace = true ∧
      Program.run config overrides.character program = .ok { final, trace := some frames } ∧
      LegalTrace config.jumpHeight overrides.character final frames := by
  intro config overrides program first risen lower there final frames
  have hrun : Program.run config overrides.character program =
      .ok { final, trace := some frames } := by
    decide
  obtain ⟨_, ⟨⟩, hlegal⟩ := exists_legalTrace rfl hrun
  exact ⟨rfl, hrun, hlegal⟩

end Blockwise
