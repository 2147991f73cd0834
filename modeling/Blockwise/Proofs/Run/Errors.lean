import Blockwise.Proofs.Program.Flatten
import Blockwise.Proofs.Run.Walk

/-!
# The errors of a run

A run fails at the first node that breaks a rule. As the rounds of a loop are its
body, written out as often as it runs, the error of a list of nodes is the error
of one of them in some state, and the error of a node with a body is its own or
that of a node of its body. Which errors are
possible therefore follows from the instructions of a program alone. Here this is
done for `Clean` instructions, as the editor places them: their kind is known, and
only a condition is chosen as a condition.
-/

namespace Blockwise

/-! ## Where an error comes from -/

/-- If two lists of actions, one behind the other, cannot be had, then one of them
cannot. -/
theorem eq_error_of_bind_map_eq_error {x : Except RunError (List Action)}
    {f : List Action → Except RunError (List Action)} {e : RunError}
    (h : (x.bind fun first => (f first).map (first ++ ·)) = .error e) :
    x = .error e ∨ ∃ first, f first = .error e := by
  cases x with
  | error e' => exact Or.inl h
  | ok first => exact Or.inr ⟨first, eq_error_of_map_eq_error h⟩

/-- An error of a list of nodes is the error of one of them. -/
theorem Program.exists_of_actions_eq_error {config : Config} {program : Program}
    {c : Character} {e : RunError} (h : Program.actions config program c = .error e) :
    ∃ node ∈ program, ∃ c', node.actions config c' = .error e := by
  induction program generalizing c with
  | nil =>
    rw [actions_nil] at h
    cases h
  | cons node rest ih =>
    rw [actions_cons] at h
    rcases eq_error_of_bind_map_eq_error h with hnode | ⟨first, hrest⟩
    · exact ⟨node, List.mem_cons_self, c, hnode⟩
    · obtain ⟨node', hnode', hc'⟩ := ih hrest
      exact ⟨node', List.mem_cons_of_mem _ hnode', hc'⟩

namespace Node

variable {config : Config} {instruction : Instruction} {children : List Node} {c : Character}
  {e : RunError}

/-- A loop fails because it has no body, or as one of the nodes of its body does. -/
theorem exists_of_loop_eq_error (htag : instruction.tag = .known .loop)
    (h : Node.actions config ⟨instruction, children⟩ c = .error e) :
    e = .emptyLoop ∨ ∃ child ∈ children, ∃ c', child.actions config c' = .error e := by
  by_cases hchildren : children = []
  · subst hchildren
    rw [actions_loop_nil htag] at h
    cases h
    exact Or.inl rfl
  · rw [actions_loop htag hchildren] at h
    obtain ⟨child, hchild, hc'⟩ := Program.exists_of_actions_eq_error h
    exact Or.inr ⟨child, mem_of_mem_flatten_replicate hchild, hc'⟩

/-- A branch with the condition of the catalog fails only as one of the nodes of
its body does, and a branch without a condition fails for that reason. -/
theorem exists_of_branch_eq_error (htag : instruction.tag = .known .branch)
    (hcondition : ∀ tag, instruction.condition = some tag → tag = .known .goalReached)
    (h : Node.actions config ⟨instruction, children⟩ c = .error e) :
    e = .conditionUnset ∨ ∃ child ∈ children, ∃ c', child.actions config c' = .error e := by
  cases hset : instruction.condition with
  | none =>
    rw [Node.actions] at h
    simp only [htag, hset] at h
    cases h
    exact Or.inl rfl
  | some tag =>
    obtain rfl := hcondition tag hset
    rw [actions_branch htag hset] at h
    split at h
    · cases h
    · split at h
      · cases h
      · exact Or.inr (Program.exists_of_actions_eq_error h)

end Node

/-! ## Clean instructions -/

/-- An instruction of a known kind. If it has a condition, it is the one condition
of the catalog. -/
structure Instruction.Clean (instruction : Instruction) : Prop where
  exists_kind : ∃ kind, instruction.tag = .known kind
  condition : ∀ tag, instruction.condition = some tag → tag = .known .goalReached

/-- The errors that a program of clean instructions can have after its start. -/
def cleanErrors : List RunError :=
  [.duplicateStart, .emptyLoop, .conditionUnset, .unsupportedBlock (.known .goalReached)]

theorem Instruction.Clean.bare (kind : Kind) : (Instruction.bare (.known kind)).Clean where
  exists_kind := ⟨kind, rfl⟩
  condition := by
    intro tag h
    cases h

theorem Instruction.Clean.essential {instruction : Instruction} (h : instruction.Clean) :
    instruction.essential.Clean := by
  unfold Instruction.essential
  split
  · exact h
  · obtain ⟨kind, hkind⟩ := h.exists_kind
    rw [hkind]
    exact .bare kind

theorem toInstruction_mem_of_mem_number {ids : IdSupply} {instructions : List Instruction}
    {block : Block} (h : block ∈ ids.number instructions) : block.toInstruction ∈ instructions := by
  have hmem : block.toInstruction ∈ (ids.number instructions).map Block.toInstruction :=
    List.mem_map_of_mem h
  rwa [IdSupply.map_toInstruction_number] at hmem

theorem clean_of_mem_number {ids : IdSupply} {instructions : List Instruction}
    (h : ∀ instruction ∈ instructions, instruction.Clean) :
    ∀ block ∈ ids.number instructions, block.Clean :=
  fun block hblock => h block.toInstruction (toInstruction_mem_of_mem_number hblock)

theorem Tag.eq_loop_or_branch_of_role_eq_opener {tag : Tag} (h : tag.role = .opener) :
    tag = .known .loop ∨ tag = .known .branch := by
  cases tag with
  | unknown text => cases h
  | known kind =>
    cases kind with
    | loop => exact Or.inl rfl
    | branch => exact Or.inr rfl
    | _ => cases h

theorem Kind.eq_goalReached_of_isCondition {kind : Kind} (h : kind.isCondition) :
    kind = .goalReached := by
  cases kind with
  | goalReached => rfl
  | _ => cases h

theorem Node.WellFormed.mem_cleanErrors {config : Config} {node : Node} (h : node.WellFormed)
    (hclean : ∀ instruction ∈ node.flatten, instruction.Clean) {c : Character} {e : RunError}
    (he : node.actions config c = .error e) : e ∈ cleanErrors := by
  induction h generalizing c with
  | @scope instruction children isOpener _ ih =>
    rw [Node.flatten_scope isOpener, List.forall_mem_cons] at hclean
    obtain ⟨hinstruction, hbody⟩ := hclean
    -- What is said of the whole sequence of the body holds for each of its nodes.
    have hchildren : ∀ child ∈ children, ∀ instruction ∈ child.flatten, instruction.Clean := by
      intro child hchild instruction hmem
      exact hbody instruction
        (List.mem_append_left _ (Program.mem_flatten.2 ⟨child, hchild, hmem⟩))
    have hbodyError : ∀ child ∈ children, ∀ c', child.actions config c' = .error e →
        e ∈ cleanErrors :=
      fun child hchild c' hc' => ih child hchild (hchildren child hchild) hc'
    rcases Tag.eq_loop_or_branch_of_role_eq_opener isOpener with htag | htag
    · rcases Node.exists_of_loop_eq_error htag he with rfl | ⟨child, hchild, c', hc'⟩
      · decide
      · exact hbodyError child hchild c' hc'
    · rcases Node.exists_of_branch_eq_error htag hinstruction.condition he with
        rfl | ⟨child, hchild, c', hc'⟩
      · decide
      · exact hbodyError child hchild c' hc'
  | @statement tag not_opener not_closer =>
    have hflatten : Node.flatten (Node.leaf tag) = [.bare tag] := Node.flatten_leaf not_opener
    obtain ⟨kind, hkind⟩ := (hclean (.bare tag) (hflatten ▸ List.mem_singleton_self _)).exists_kind
    obtain rfl : tag = .known kind := hkind
    rw [Node.actions] at he
    cases kind with
    | start => cases he; decide
    | goalReached => cases he; decide
    | move | jump | say => cases he
    | loop | branch => exact absurd rfl not_opener
    | close => exact absurd rfl not_closer

/-! ## Runs of clean sequences -/

/-- The first node of a program that was read from a sequence has the tag of the
first block. -/
theorem Program.exists_cons_of_ofBlocks_eq_ok {first : Block} {rest : List Block}
    {program : Program} (h : ofBlocks (first :: rest) = .ok program) :
    ∃ node others, program = node :: others ∧ node.tag = first.tag := by
  obtain ⟨hprogram, hsays⟩ := (ofBlocks_eq_ok_iff ..).1 h
  cases program with
  | nil =>
    rw [flatten_nil, says_nil_iff] at hsays
    cases hsays
  | cons node others =>
    obtain ⟨body, hbody⟩ := node.exists_flatten_eq_cons
    rw [flatten_cons, hbody, List.cons_append] at hsays
    obtain ⟨_, _, heq, hfirst, -⟩ := (says_cons_iff ..).1 hsays
    cases heq
    refine ⟨node, others, rfl, ?_⟩
    rw [Node.tag, ← hfirst, Instruction.essential_tag]

/-- What is known of the instructions of a sequence is known of those of the
program read from it. -/
theorem Program.clean_of_ofBlocks_eq_ok {blocks : List Block} {program : Program}
    (h : ofBlocks blocks = .ok program) (hclean : ∀ block ∈ blocks, block.Clean) :
    ∀ instruction ∈ program.flatten, instruction.Clean := by
  obtain ⟨-, hsays⟩ := (ofBlocks_eq_ok_iff ..).1 h
  rw [← hsays]
  intro instruction hmem
  obtain ⟨block, hblock, rfl⟩ := List.mem_map.1 hmem
  exact (hclean block hblock).essential

/-- A sequence of clean blocks that nests is empty, or does not begin with the
start block, or runs with the errors of clean instructions only. -/
theorem runBlocks_of_clean {blocks : List Block} (hnests : Nests blocks)
    (hclean : ∀ block ∈ blocks, block.Clean) (config : Config) (overrides : Overrides) :
    (blocks = [] ∧ runBlocks config overrides blocks = .error .emptyProgram) ∨
    ∃ first rest, blocks = first :: rest ∧
      ((first.tag ≠ .known .start ∧ runBlocks config overrides blocks = .error .missingStart) ∨
        (first.tag = .known .start ∧
          ∀ e, runBlocks config overrides blocks = .error e → e ∈ cleanErrors)) := by
  obtain ⟨program, hprogram⟩ := hnests
  cases blocks with
  | nil => exact Or.inl ⟨rfl, rfl⟩
  | cons first rest =>
    right
    refine ⟨first, rest, rfl, ?_⟩
    obtain ⟨node, others, rfl, htag⟩ := Program.exists_cons_of_ofBlocks_eq_ok hprogram
    rw [runBlocks_eq_run (List.cons_ne_nil _ _) hprogram]
    by_cases hstart : first.tag = .known .start
    · right
      refine ⟨hstart, fun e he => ?_⟩
      rw [Program.run_start (htag.trans hstart)] at he
      obtain ⟨node', hnode', c', hc'⟩ :=
        Program.exists_of_actions_eq_error (eq_error_of_map_eq_error he)
      have hflatten := Program.clean_of_ofBlocks_eq_ok hprogram hclean
      have hwell := ((Program.ofBlocks_eq_ok_iff ..).1 hprogram).1 node'
        (List.mem_cons_of_mem _ hnode')
      refine hwell.mem_cleanErrors (fun instruction hmem => hflatten instruction ?_) hc'
      exact Program.mem_flatten.2 ⟨node', List.mem_cons_of_mem _ hnode', hmem⟩
    · left
      exact ⟨hstart, Program.run_of_ne_start (htag ▸ hstart) config _ others⟩

end Blockwise
