import Blockwise.Proofs.Run.Actions

/-!
# What a run records

A walk changes its state and keeps a frame at many places, and nothing in its
definition says that the two go together. Here it is shown that they do: behind
the start block, a walk through a program performs the actions of the program
(`Program.walk_eq`). So the state of a walk is the one in which its actions leave
the character, and its frames are those that the actions show.

Therefore a run is known from the actions of what comes behind the start block
(`Program.run_start`), and every run that succeeds is of this form
(`Program.exists_actions_of_run_eq_ok`).
-/

namespace Blockwise

/-! ## Performing actions -/

namespace Walk

variable (height : Int64) (walk : Walk)

theorem started_perform (action : Action) :
    (walk.perform height action).started = walk.started := by
  cases action <;> rfl

theorem character_perform (action : Action) :
    (walk.perform height action).character = action.result height walk.character := by
  cases action <;> rfl

/-- The frames that are kept are those in which the action shows the character. -/
theorem frames_perform (action : Action) :
    (walk.perform height action).frames =
      walk.frames.map ((action.frames height walk.character).reverse ++ ·) := by
  cases action with
  | move | say => rfl
  | jump => exact Option.map_map ..

/-- The walk after some actions, one after the other. -/
def performAll (actions : List Action) : Walk := actions.foldl (perform height) walk

theorem performAll_append (p q : List Action) :
    walk.performAll height (p ++ q) = (walk.performAll height p).performAll height q :=
  List.foldl_append

theorem started_performAll (actions : List Action) :
    (walk.performAll height actions).started = walk.started := by
  induction actions generalizing walk with
  | nil => rfl
  | cons action rest ih => exact (ih _).trans (started_perform height walk action)

theorem character_performAll (actions : List Action) :
    (walk.performAll height actions).character = walk.character.after height actions := by
  induction actions generalizing walk with
  | nil => rfl
  | cons action rest ih =>
    rw [Character.after_cons, ← character_perform]
    exact ih _

theorem frames_performAll (actions : List Action) :
    (walk.performAll height actions).frames =
      walk.frames.map ((walk.character.trail height actions).reverse ++ ·) := by
  induction actions generalizing walk with
  | nil => exact Option.map_id'.symm
  | cons action rest ih =>
    have hrest := ih (walk.perform height action)
    rw [frames_perform, character_perform, Option.map_map] at hrest
    rw [Character.trail, List.reverse_append]
    simp only [List.append_assoc]
    exact hrest

end Walk

/-! ## A walk performs the actions of its program -/

section

variable {height : Int64} {walk : Walk}

/-- If a first part has been performed, and what comes behind it performs its own
actions, then both perform the actions of the one followed by those of the other. -/
theorem bind_map_performAll_eq {step : Walk → Except RunError Walk}
    {acts : Character → Except RunError (List Action)}
    (hstep : ∀ walk, walk.started = true →
      step walk = (acts walk.character).map (walk.performAll height))
    (hstarted : walk.started = true) (x : Except RunError (List Action)) :
    (x.map (walk.performAll height)).bind step =
      (x.bind fun first => (acts (walk.character.after height first)).map (first ++ ·)).map
        (walk.performAll height) := by
  cases x with
  | error e => rfl
  | ok first =>
    have hbehind : (walk.performAll height first).started = true :=
      (walk.started_performAll height first).trans hstarted
    change step (walk.performAll height first) = Except.map _ (Except.map _ _)
    rw [hstep _ hbehind, Walk.character_performAll]
    cases acts (walk.character.after height first) with
    | error e => rfl
    | ok others => exact congrArg Except.ok (walk.performAll_append height first others).symm

theorem Walk.repeatBody_eq {body : Walk → Except RunError Walk}
    {acts : Character → Except RunError (List Action)}
    (hbody : ∀ walk, walk.started = true →
      body walk = (acts walk.character).map (walk.performAll height))
    (rounds : Nat) (hstarted : walk.started = true) :
    Walk.repeatBody body rounds walk =
      (repeatActions height acts rounds walk.character).map (walk.performAll height) := by
  induction rounds generalizing walk with
  | zero => rfl
  | succ rounds ih =>
    rw [repeatActions_succ, ← bind_map_performAll_eq (fun _ => ih) hstarted, ← hbody _ hstarted]
    rfl

end

variable {config : Config} {walk : Walk}

theorem Program.walk_cons (node : Node) (rest : Program) :
    Program.walk config (node :: rest) walk =
      (node.walk config walk).bind (Program.walk config rest) := by
  rw [Program.walk]
  rfl

theorem Program.walk_eq_of_forall {program : Program}
    (h : ∀ node ∈ program, ∀ walk : Walk, walk.started = true →
      node.walk config walk =
        (node.actions config walk.character).map (walk.performAll config.jumpHeight))
    (hstarted : walk.started = true) :
    program.walk config walk =
      (program.actions config walk.character).map (walk.performAll config.jumpHeight) := by
  induction program generalizing walk with
  | nil =>
    rw [Program.walk, Program.actions_nil]
    rfl
  | cons node rest ih =>
    obtain ⟨hnode, hrest⟩ := List.forall_mem_cons.1 h
    rw [Program.walk_cons, Program.actions_cons, hnode walk hstarted,
      bind_map_performAll_eq (fun _ => ih hrest) hstarted]

/-- Once the start block has been met, a walk through a node performs the actions of
the node, or fails as they do. -/
theorem Node.walk_eq (node : Node) (hstarted : walk.started = true) :
    node.walk config walk =
      (node.actions config walk.character).map (walk.performAll config.jumpHeight) := by
  induction node using Node.induction generalizing walk with
  | mk instruction children ih =>
    have hbody {walk : Walk} (hstarted : walk.started = true) :
        Program.walk config children walk =
          (Program.actions config children walk.character).map
            (walk.performAll config.jumpHeight) :=
      Program.walk_eq_of_forall (fun child hchild _ => ih child hchild) hstarted
    rw [Node.walk, Node.actions]
    cases htag : instruction.tag with
    | unknown text => rfl
    | known kind =>
      cases kind with
      | start =>
        rw [Walk.start, if_pos hstarted]
        rfl
      | move | jump | say | close | goalReached => rfl
      | loop =>
        dsimp only
        split
        · rfl
        · exact Walk.repeatBody_eq (fun _ => hbody) _ hstarted
      | branch =>
        dsimp only
        -- Both sides look at the condition first, and then at the place.
        cases instruction.condition with
        | none => rfl
        | some tag =>
          cases tag with
          | unknown text => rfl
          | known kind =>
            cases kind with
            | goalReached =>
              dsimp only
              by_cases hgoal : walk.character.x < config.goalX
              · rw [if_pos hgoal, if_pos hgoal]
                rfl
              · rw [if_neg hgoal, if_neg hgoal]
                by_cases hempty : children.isEmpty
                · rw [if_pos hempty, if_pos hempty]
                  rfl
                · rw [if_neg hempty, if_neg hempty]
                  exact hbody hstarted
            | start | move | jump | say | loop | branch | close => rfl

theorem Program.walk_eq (program : Program) (hstarted : walk.started = true) :
    program.walk config walk =
      (program.actions config walk.character).map (walk.performAll config.jumpHeight) :=
  walk_eq_of_forall (fun node _ _ => node.walk_eq) hstarted

/-! ## Runs -/

/-- The outcome of a run that begins at `c` and performs `actions`. The trace
shows the first state twice: before the run, and at the start block. -/
def Execution.ofActions (config : Config) (c : Character) (actions : List Action) :
    Execution where
  final := c.after config.jumpHeight actions
  trace :=
    if config.recordTrace then some (c :: c :: c.trail config.jumpHeight actions) else none

theorem eq_error_of_map_eq_error {α β : Type} {f : α → β} {x : Except RunError α}
    {e : RunError} (h : x.map f = .error e) : x = .error e := by
  cases x with
  | error e' => cases h; rfl
  | ok a => cases h

/-- The walk behind the leading start block. -/
def Walk.begun (config : Config) (c : Character) : Walk :=
  { Walk.initial config c with started := true }.snapshot

theorem Walk.finish_performAll_begun (config : Config) (c : Character) (actions : List Action) :
    ((Walk.begun config c).performAll config.jumpHeight actions).finish =
      Execution.ofActions config c actions := by
  have hcharacter := (begun config c).character_performAll config.jumpHeight actions
  have hframes := (begun config c).frames_performAll config.jumpHeight actions
  unfold finish Execution.ofActions
  rw [hcharacter, hframes]
  unfold begun snapshot initial
  by_cases hrecord : config.recordTrace
  · simp [hrecord]
  · simp [hrecord]

namespace Program

/-- A program that begins with the start block runs as the actions of what comes
behind it; the start block itself only adds a frame. -/
theorem run_start {first : Node} (htag : first.tag = .known .start) (config : Config)
    (c : Character) (rest : Program) :
    run config c (first :: rest) =
      (Program.actions config rest c).map (Execution.ofActions config c) := by
  have hfirst : first.walk config (.initial config c) = .ok (.begun config c) := by
    obtain ⟨instruction, children⟩ := first
    have htag : instruction.tag = .known .start := htag
    rw [Node.walk]
    simp only [htag]
    rfl
  have hwalk : Program.walk config (first :: rest) (.initial config c) =
      (Program.actions config rest c).map
        ((Walk.begun config c).performAll config.jumpHeight) := by
    rw [walk_cons, hfirst]
    exact rest.walk_eq rfl
  unfold run
  rw [if_pos (by simp [htag]), hwalk]
  cases Program.actions config rest c with
  | error e => rfl
  | ok actions =>
    have hstarted : ((Walk.begun config c).performAll config.jumpHeight actions).started = true :=
      (Walk.begun config c).started_performAll config.jumpHeight actions
    change (if _ then _ else _) = Except.ok _
    rw [if_pos hstarted, Walk.finish_performAll_begun]

/-- Without the start block in front, nothing of a program runs. -/
theorem run_of_ne_start {first : Node} (htag : first.tag ≠ .known .start) (config : Config)
    (c : Character) (rest : Program) :
    run config c (first :: rest) = .error .missingStart :=
  if_neg (by simp [htag])

@[simp] theorem run_nil (config : Config) (c : Character) :
    run config c [] = .error .missingStart := rfl

theorem run_start_eq_ok_iff {first : Node} (htag : first.tag = .known .start) {c : Character}
    {rest : Program} {execution : Execution} :
    run config c (first :: rest) = .ok execution ↔
      ∃ actions, Program.actions config rest c = .ok actions ∧
        execution = Execution.ofActions config c actions := by
  rw [run_start htag]
  cases Program.actions config rest c with
  | error e => exact ⟨fun h => (nomatch h), fun ⟨_, h, _⟩ => (nomatch h)⟩
  | ok actions =>
    constructor
    · intro h
      exact ⟨actions, rfl, (Except.ok.inj h).symm⟩
    · rintro ⟨_, h, rfl⟩
      rw [← Except.ok.inj h]
      rfl

theorem exists_actions_of_run_eq_ok {c : Character} {program : Program} {execution : Execution}
    (h : run config c program = .ok execution) :
    ∃ first rest actions, program = first :: rest ∧ first.tag = .known .start ∧
      Program.actions config rest c = .ok actions ∧
      execution = Execution.ofActions config c actions := by
  cases program with
  | nil => cases h
  | cons first rest =>
    by_cases htag : first.tag = .known .start
    · obtain ⟨actions, hactions, hexecution⟩ := (run_start_eq_ok_iff htag).1 h
      exact ⟨first, rest, actions, rfl, htag, hactions, hexecution⟩
    · rw [run_of_ne_start htag] at h
      cases h

end Program

/-- A sequence that is not empty runs as the program that is read from it. -/
theorem runBlocks_eq_run {blocks : List Block} {program : Program} (hblocks : blocks ≠ [])
    (hprogram : Program.ofBlocks blocks = .ok program) (config : Config) (overrides : Overrides) :
    runBlocks config overrides blocks = Program.run config overrides.character program := by
  have hempty : ¬ blocks.isEmpty := by rwa [List.isEmpty_iff]
  rw [runBlocks, if_neg hempty, hprogram]

end Blockwise
