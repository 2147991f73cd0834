import Mathlib.Data.List.DropRight
import Blockwise.Run.Replay

/-!
# Sessions of a replay

Whoever watches a replay steps on and rewinds, in any order and as often as they
like. Only the steps since the last rewind count, and of these only as many as
there are later frames: `position_session` says where the replay stands, and
what it shows and answers follows from there.
-/

namespace Blockwise.Replay

/-- What is asked of a replay. -/
inductive Command where
  | step
  | rewind
deriving DecidableEq

def perform (r : Replay) : Command → Replay
  | .step => r.step.2
  | .rewind => r.rewind

def session (r : Replay) (commands : List Command) : Replay := commands.foldl perform r

/-- The number of steps since the last rewind, or since the start if there is none. -/
def stepsSinceRewind (commands : List Command) : Nat :=
  (commands.rtakeWhile (· = .step)).length

@[simp] theorem stepsSinceRewind_nil : stepsSinceRewind [] = 0 := rfl

@[simp] theorem stepsSinceRewind_concat_step (commands : List Command) :
    stepsSinceRewind (commands ++ [.step]) = stepsSinceRewind commands + 1 := by
  rw [stepsSinceRewind, List.rtakeWhile_concat_pos _ _ _ (by decide), List.length_append]
  rfl

@[simp] theorem stepsSinceRewind_concat_rewind (commands : List Command) :
    stepsSinceRewind (commands ++ [.rewind]) = 0 := by
  rw [stepsSinceRewind, List.rtakeWhile_concat_neg _ _ _ (by decide)]
  rfl

/-! ## One command -/

variable {r : Replay}

theorem finished_iff_length_le : r.finished ↔ r.frames.length ≤ r.position + 1 :=
  decide_eq_true_iff

/-- A replay is finished when there is no later frame. -/
theorem finished_iff : r.finished ↔ ∀ later, r.position < later → r.frames[later]? = none := by
  rw [finished_iff_length_le]
  constructor
  · intro h later hlater
    exact List.getElem?_eq_none (Nat.le_trans h hlater)
  · intro h
    exact List.getElem?_eq_none_iff.1 (h _ (Nat.lt_succ_self _))

/-- Where the one test finds the end, the other finds no later frame. -/
theorem step_of_finished (h : r.finished = true) : r.step = (false, r) := by
  rw [finished_iff_length_le] at h
  exact if_neg (Nat.not_lt.2 h)

theorem step_of_not_finished (h : r.finished = false) :
    r.step = (true, { r with position := r.position + 1 }) := by
  rw [← Bool.not_eq_true, finished_iff_length_le] at h
  exact if_pos (Nat.not_le.1 h)

theorem fst_step_iff : r.step.1 = true ↔ r.finished = false := by
  cases h : r.finished with
  | true => simp [step_of_finished h]
  | false => simp [step_of_not_finished h]

theorem frames_perform (r : Replay) (command : Command) :
    (r.perform command).frames = r.frames := by
  cases command with
  | rewind => rfl
  | step =>
    cases h : r.finished with
    | true => rw [perform, step_of_finished h]
    | false => rw [perform, step_of_not_finished h]

theorem position_perform_step (r : Replay) :
    (r.perform .step).position = if r.finished then r.position else r.position + 1 := by
  cases h : r.finished with
  | true => rw [perform, step_of_finished h, if_pos rfl]
  | false => rw [perform, step_of_not_finished h, if_neg Bool.false_ne_true]

/-- As long as the position is that of a frame, a step goes on to the next frame and stays at
the last one. -/
theorem position_perform_step_of_le (h : r.position ≤ r.frames.length - 1) :
    (r.perform .step).position = min (r.position + 1) (r.frames.length - 1) := by
  rw [position_perform_step]
  split
  case isTrue hfinished =>
    rw [finished_iff_length_le] at hfinished
    omega
  case isFalse hfinished =>
    rw [finished_iff_length_le] at hfinished
    omega

/-- A step answers that it went on exactly when the position is the next one. -/
theorem fst_step_iff_position :
    r.step.1 = true ↔ (r.perform .step).position = r.position + 1 := by
  rw [fst_step_iff, position_perform_step]
  cases r.finished <;> simp

/-! ## Any number of commands -/

theorem session_concat (r : Replay) (commands : List Command) (command : Command) :
    r.session (commands ++ [command]) = (r.session commands).perform command := by
  rw [session, List.foldl_append]
  rfl

theorem frames_session (r : Replay) (commands : List Command) :
    (r.session commands).frames = r.frames := by
  induction commands using List.reverseRecOn with
  | nil => rfl
  | append_singleton commands command ih => rw [session_concat, frames_perform, ih]

/-- A fresh replay goes on by one frame for each step since the last rewind, until it shows
the last frame. -/
theorem position_session (frames : List Character) (commands : List Command) :
    (session { frames } commands).position =
      min (stepsSinceRewind commands) (frames.length - 1) := by
  induction commands using List.reverseRecOn with
  | nil =>
    rw [stepsSinceRewind_nil, Nat.zero_min]
    rfl
  | append_singleton commands command ih =>
    rw [session_concat]
    cases command with
    | rewind => rw [stepsSinceRewind_concat_rewind, Nat.zero_min, perform, rewind]
    | step =>
      have hframes : (session { frames } commands).frames = frames := frames_session _ commands
      have hwithin : (session { frames } commands).position ≤
          (session { frames } commands).frames.length - 1 := by
        rw [ih, hframes]
        exact Nat.min_le_right _ _
      rw [position_perform_step_of_le hwithin, ih, hframes, stepsSinceRewind_concat_step]
      omega

/-- A replay shows some frame at every time of a session, unless there are no frames. -/
theorem current_session_eq_none_iff (frames : List Character) (commands : List Command) :
    (session { frames } commands).current = none ↔ frames = [] := by
  rw [current, frames_session, position_session, List.getElem?_eq_none_iff,
    ← List.length_eq_zero_iff]
  change frames.length ≤ _ ↔ _
  omega

/-- A fresh replay after any steps and rewinds: where it stands, what it shows, whether it is
finished, and what it answers to the next step of the session. -/
theorem session_keeps_place (frames : List Character) (commands : List Command) :
    let r := session { frames } commands
    r.position = min (stepsSinceRewind commands) (frames.length - 1) ∧
      r.current = frames[r.position]? ∧ (r.current = none ↔ frames = []) ∧
      (r.finished ↔ ∀ later, r.position < later → frames[later]? = none) ∧
      (r.step.1 = true ↔ (r.perform .step).position = r.position + 1) ∧
      (r.step.1 = true ↔ r.finished = false) := by
  intro r
  have hframes : r.frames = frames := frames_session _ commands
  refine ⟨position_session frames commands, ?_, current_session_eq_none_iff frames commands, ?_,
    fst_step_iff_position, fst_step_iff⟩
  · rw [current, hframes]
  · rw [finished_iff, hframes]

/-- The steps before a rewind do not count, nor do those beyond the last frame. -/
example :
    (session { frames := [{}, { x := 1 }, { x := 2 }] }
      [.step, .rewind, .step, .step, .step]).current = some { x := 2 } := rfl

end Blockwise.Replay
