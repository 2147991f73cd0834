import Blockwise.Proofs.Program.Agreement
import Blockwise.Proofs.Run.Errors

/-!
# What a run depends on

Two programs that agree have the same actions from every state, under settings
that put the goal at the same place and let jumps have the same height
(`Node.Agrees.actions_eq`). So two runs of one program differ at most in whether
their frames are kept, and two sequences that agree place by place have the same
runs. A fault in the nesting is found in both at the same place; only the
identity of the block there is not the same.
-/

namespace Blockwise

/-! ## The same actions -/

section

variable {config config' : Config}

theorem Program.actions_eq_of_forall₂ (hheight : config.jumpHeight = config'.jumpHeight)
    {p q : Program} (h : List.Forall₂ (fun a b => a.actions config = b.actions config') p q) :
    Program.actions config p = Program.actions config' q := by
  induction h with
  | nil =>
    funext c
    rw [actions_nil, actions_nil]
  | cons hnode _ ih =>
    funext c
    rw [actions_cons, actions_cons, hnode, ih, hheight]

theorem Node.Agrees.actions_eq (hgoal : config.goalX = config'.goalX)
    (hheight : config.jumpHeight = config'.jumpHeight) {a b : Node} (h : a.Agrees b) :
    a.actions config = b.actions config' := by
  induction a using Node.induction generalizing b with
  | mk instruction children ih =>
    cases h with
    | @mk _ instruction' _ children' hinstruction hchildren =>
    have hbody : Program.actions config children = Program.actions config' children' :=
      Program.actions_eq_of_forall₂ hheight <|
        ((List.forall₂_and_left ..).2 ⟨ih, hchildren⟩).imp fun _ _ h => h.1 h.2
    have hempty : children.isEmpty = children'.isEmpty := by
      cases hchildren <;> rfl
    funext c
    rw [Node.actions, Node.actions, ← hinstruction.tag_eq]
    cases htag : instruction.tag with
    | unknown text => rfl
    | known kind =>
      cases kind with
      | loop => simp only [hbody, hempty, hheight, hinstruction.count_eq htag]
      | branch => simp only [hbody, hempty, hgoal, hinstruction.condition_eq htag]
      | start | move | jump | say | close | goalReached => rfl

theorem Program.Agrees.actions_eq (hgoal : config.goalX = config'.goalX)
    (hheight : config.jumpHeight = config'.jumpHeight) {p q : Program} (h : p.Agrees q) :
    Program.actions config p = Program.actions config' q :=
  Program.actions_eq_of_forall₂ hheight (h.imp fun _ _ hnode => hnode.actions_eq hgoal hheight)

end

theorem Program.Agrees.run_eq {p q : Program} (h : p.Agrees q) (config : Config) (c : Character) :
    run config c p = run config c q := by
  cases h with
  | nil => rfl
  | @cons first first' rest rest' hfirst hrest =>
    by_cases htag : first.tag = .known .start
    · rw [run_start htag, run_start (hfirst.tag_eq ▸ htag), Program.Agrees.actions_eq rfl rfl hrest]
    · rw [run_of_ne_start htag, run_of_ne_start (hfirst.tag_eq ▸ htag)]

/-! ## Keeping the frames -/

/-- Whether the frames of a run are kept makes no difference to anything else:
with and without them a program fails in the same way or ends in the same state. -/
theorem run_with_or_without_trace (config : Config) (overrides : Overrides) (program : Program) :
    let kept := Program.run { config with recordTrace := true } overrides.character program
    let dropped := Program.run { config with recordTrace := false } overrides.character program
    (∃ e, kept = .error e ∧ dropped = .error e) ∨
      ∃ final frames,
        kept = .ok { final, trace := some frames } ∧ dropped = .ok { final, trace := none } := by
  intro kept dropped
  cases program with
  | nil => exact .inl ⟨.missingStart, rfl, rfl⟩
  | cons first rest =>
    by_cases htag : first.tag = .known .start
    · have hactions : Program.actions { config with recordTrace := true } rest =
          Program.actions { config with recordTrace := false } rest :=
        (Program.Agrees.refl rest).actions_eq (by rfl) (by rfl)
      simp only [kept, dropped, Program.run_start htag, hactions]
      cases Program.actions { config with recordTrace := false } rest overrides.character with
      | error e => exact .inl ⟨e, rfl, rfl⟩
      | ok actions => exact .inr ⟨_, _, rfl, rfl⟩
    · exact .inl ⟨.missingStart, Program.run_of_ne_start htag .., Program.run_of_ne_start htag ..⟩

/-! ## Sequences that agree -/

theorem Node.actions_ne_nesting (config : Config) (node : Node) (c : Character)
    (fault : NestingFault) : node.actions config c ≠ .error (.nesting fault) := by
  induction node using Node.induction generalizing c with
  | mk instruction children ih =>
    have hbody : Program.actions config children c ≠ .error (.nesting fault) := fun h => by
      obtain ⟨child, hchild, c', hc'⟩ := Program.exists_of_actions_eq_error h
      exact ih child hchild c' hc'
    intro h
    cases htag : instruction.tag with
    | unknown text =>
      rw [Node.actions] at h
      simp only [htag] at h
      cases h
    | known kind =>
      cases kind with
      | loop =>
        rcases exists_of_loop_eq_error htag h with h | ⟨child, hchild, c', hc'⟩
        · cases h
        · exact ih child hchild c' hc'
      | branch =>
        rw [Node.actions] at h
        simp only [htag] at h
        split at h
        · cases h
        · split at h
          · cases h
          · split at h
            · cases h
            · exact hbody h
        · cases h
      | start | move | jump | say | close | goalReached =>
        rw [Node.actions] at h
        simp only [htag] at h
        cases h

theorem Program.run_ne_nesting (config : Config) (c : Character) (program : Program)
    (fault : NestingFault) : run config c program ≠ .error (.nesting fault) := by
  intro h
  cases program with
  | nil => cases h
  | cons first rest =>
    by_cases htag : first.tag = .known .start
    · rw [run_start htag] at h
      obtain ⟨node, -, c', hc'⟩ := exists_of_actions_eq_error (eq_error_of_map_eq_error h)
      exact node.actions_ne_nesting config c' fault hc'
    · rw [run_of_ne_start htag] at h
      cases h

theorem NestingFault.message_unclosed_congr {a b : Block} (h : a.tag = b.tag) :
    (NestingFault.unclosed a).message = (NestingFault.unclosed b).message := by
  rw [message, message, h]

/-- The outcomes of runs of two sequences are the same, except that a nesting
fault names in each sequence the block at one and the same place. -/
inductive SameOutcome (p q : List Block) :
    Except RunError Execution → Except RunError Execution → Prop
  | ok (execution : Execution) : SameOutcome p q (.ok execution) (.ok execution)
  | error {e : RunError} (ne_nesting : ∀ fault, e ≠ .nesting fault) :
      SameOutcome p q (.error e) (.error e)
  | nesting {fault fault' : NestingFault} {i : Nat} {a b : Block}
      (code_eq : fault.diagnostic.code = fault'.diagnostic.code)
      (category_eq : fault.diagnostic.category = fault'.diagnostic.category)
      (message_eq : fault.diagnostic.message = fault'.diagnostic.message)
      (left : p[i]? = some a) (right : q[i]? = some b)
      (names_left : fault.diagnostic.block = some a.id)
      (names_right : fault'.diagnostic.block = some b.id) :
      SameOutcome p q (.error (.nesting fault)) (.error (.nesting fault'))

theorem sameOutcome_run (p q : List Block) (config : Config) (c : Character) (program : Program) :
    SameOutcome p q (Program.run config c program) (Program.run config c program) := by
  cases hrun : Program.run config c program with
  | ok execution => exact .ok execution
  | error e =>
    refine .error fun fault he => Program.run_ne_nesting config c program fault ?_
    rw [hrun, he]

/-- Identities, and whatever a run has no use for, never influence a run: if two
sequences agree place by place, their runs have the same outcome under the same
settings and overrides. -/
theorem runBlocks_of_agrees (config : Config) (overrides : Overrides) {p q : List Block}
    (h : List.Forall₂ (fun a b : Block => a.toInstruction.Agrees b.toInstruction) p q) :
    SameOutcome p q (runBlocks config overrides p) (runBlocks config overrides q) := by
  have hread := Program.ofBlocks_agrees h
  have hempty : p.isEmpty = q.isEmpty := by
    cases h <;> rfl
  rw [runBlocks, runBlocks, hempty]
  split
  · refine .error fun fault he => ?_
    cases he
  · generalize Program.ofBlocks p = left at hread ⊢
    generalize Program.ofBlocks q = right at hread ⊢
    cases hread with
    | ok agrees =>
      simp only [agrees.run_eq config overrides.character]
      exact sameOutcome_run p q config overrides.character _
    | unclosed related =>
      obtain ⟨i, hp, hq⟩ := related.place
      have hmessage := NestingFault.message_unclosed_congr related.agrees.tag_eq
      exact .nesting rfl rfl hmessage hp hq rfl rfl
    | unmatched related =>
      obtain ⟨i, hp, hq⟩ := related.place
      exact .nesting rfl rfl rfl hp hq rfl rfl

/-- Two sequences with different identities, counts that are rounded to the same
number of rounds, and conditions and counts on blocks that have no use for them;
and the same without the last closer. -/
theorem runBlocks_of_agrees_rounded_counts :
    let config : Config := { goalX := 2, recordTrace := true }
    let p : List Block :=
      [{ tag := .known .start, id := "a" },
        { tag := .known .loop, loopCount := some 2.4, condition := some (.unknown "wall"),
          id := "b" },
        { tag := .known .move, id := "b" },
        { tag := .known .branch, condition := some (.known .goalReached), id := "c" },
        { tag := .known .close, id := "d" },
        { tag := .known .close, id := "e" }]
    let q : List Block :=
      [{ tag := .known .start, condition := some (.known .move), id := "v" },
        { tag := .known .loop, loopCount := some 1.6, id := "w" },
        { tag := .known .move, loopCount := some 9, id := "x" },
        { tag := .known .branch, condition := some (.known .goalReached), loopCount := some (-1),
          id := "y" },
        { tag := .known .close, id := "z" },
        { tag := .known .close, loopCount := some 3, id := "v" }]
    let moved : Character := { x := 1, moveTotal := 1 }
    let there : Character := { x := 2, moveTotal := 2 }
    let final : Character := { there with messages := ["Goal reached!"] }
    List.Forall₂ (fun a b : Block => a.toInstruction.Agrees b.toInstruction) p q ∧
      SameOutcome p q (runBlocks config {} p) (runBlocks config {} q) ∧
      runBlocks config {} p = .ok { final, trace := some [{}, {}, moved, there, final] } ∧
      List.Forall₂ (fun a b : Block => a.toInstruction.Agrees b.toInstruction) (p.take 5)
        (q.take 5) ∧
      SameOutcome (p.take 5) (q.take 5) (runBlocks config {} (p.take 5))
        (runBlocks config {} (q.take 5)) ∧
      runBlocks config {} (p.take 5) = .error (.nesting (.unclosed
        { tag := .known .loop, loopCount := some 2.4, condition := some (.unknown "wall"),
          id := "b" })) := by
  intro config p q moved there final
  have hagrees : List.Forall₂ (fun a b : Block => a.toInstruction.Agrees b.toInstruction) p q := by
    have hcount : LoopCount.normalize (some 2.4) = LoopCount.normalize (some 1.6) := by decide
    refine .cons ⟨rfl, ?_, ?_⟩ (.cons ⟨rfl, ?_, fun _ => hcount⟩ (.cons ⟨rfl, ?_, ?_⟩
      (.cons ⟨rfl, fun _ => rfl, ?_⟩ (.cons ⟨rfl, ?_, ?_⟩ (.cons ⟨rfl, ?_, ?_⟩ .nil)))))
    all_goals
      intro h
      cases h
  have hagrees' := List.forall₂_take 5 hagrees
  exact ⟨hagrees, runBlocks_of_agrees config {} hagrees, by decide, hagrees',
    runBlocks_of_agrees config {} hagrees', rfl⟩

end Blockwise
