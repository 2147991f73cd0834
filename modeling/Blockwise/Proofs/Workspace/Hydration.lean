import Blockwise.Workspace.Hydration
import Blockwise.Proofs.Run.Errors
import Blockwise.Proofs.Workspace.Editing

/-!
# What hydration guarantees

Whatever a generator sends, hydration makes a sequence of it that nests, that is
made of clean instructions, and that begins with the start block. `balance`
follows the depth count: it leaves out an instruction where the count would give
up (`balance_of_none`), and otherwise keeps it (`balance_of_some`).
-/

namespace Blockwise.Hydration

/-! ## The balance -/

theorem balance_nil (opened : Nat) :
    balance opened [] = List.replicate opened (.bare (.known .close)) := by
  rw [balance]

/-- A closer that ends nothing is left out. -/
theorem balance_of_none {opened : Nat} {instruction : Instruction}
    (h : instruction.role.level? opened = none) (rest : List Instruction) :
    balance opened (instruction :: rest) = balance opened rest := by
  obtain ⟨hcloser, rfl⟩ := (Role.level?_eq_none_iff ..).1 h
  unfold Instruction.role at hcloser
  simp only [balance, hcloser]

/-- Every other instruction is kept. -/
theorem balance_of_some {opened d : Nat} {instruction : Instruction}
    (h : instruction.role.level? opened = some d) (rest : List Instruction) :
    balance opened (instruction :: rest) = instruction :: balance d rest := by
  rcases Role.cases_of_level?_eq_some h with
    ⟨hrole, rfl⟩ | ⟨hrole, rfl⟩ | ⟨hrole | hrole, rfl⟩
  all_goals
    unfold Instruction.role at hrole
    simp only [balance, hrole]

theorem level?_replicate_closer (opened : Nat) :
    level? opened (List.replicate opened .closer) = some 0 := by
  induction opened with
  | zero => rfl
  | succ opened ih =>
    rw [List.replicate_succ, level?_cons]
    exact ih

theorem level?_balance (opened : Nat) (instructions : List Instruction) :
    level? opened ((balance opened instructions).map Instruction.role) = some 0 := by
  induction instructions generalizing opened with
  | nil =>
    rw [balance_nil, List.map_replicate]
    exact level?_replicate_closer opened
  | cons instruction rest ih =>
    cases hlevel : instruction.role.level? opened with
    | none =>
      -- The closer is gone, and the count goes on as if it had not been there.
      rw [balance_of_none hlevel]
      exact ih opened
    | some d =>
      rw [balance_of_some hlevel, List.map_cons, level?_cons, hlevel]
      exact ih d

theorem balanced_balance (instructions : List Instruction) :
    Balanced ((balance 0 instructions).map Instruction.role) :=
  (balanced_iff_level? _).2 (level?_balance 0 instructions)

/-- Nothing but closers is added. -/
theorem mem_balance {opened : Nat} {instructions : List Instruction} {instruction : Instruction}
    (h : instruction ∈ balance opened instructions) :
    instruction ∈ instructions ∨ instruction = .bare (.known .close) := by
  induction instructions generalizing opened with
  | nil =>
    rw [balance_nil] at h
    exact Or.inr (List.eq_of_mem_replicate h)
  | cons first rest ih =>
    cases hlevel : first.role.level? opened with
    | none =>
      rw [balance_of_none hlevel] at h
      exact (ih h).imp_left (List.mem_cons_of_mem _)
    | some d =>
      rw [balance_of_some hlevel] at h
      rcases List.mem_cons.1 h with rfl | h
      · exact Or.inl List.mem_cons_self
      · exact (ih h).imp_left (List.mem_cons_of_mem _)

/-! ## The candidates -/

theorem eq_goalReached_of_condition? {members : List (String × Json)} {tag : Tag}
    (h : condition? members = some tag) : tag = .known .goalReached := by
  obtain ⟨kind, hkind, rfl⟩ := Option.map_eq_some_iff.1 h
  obtain ⟨-, hcondition⟩ := Option.filter_eq_some_iff.1 hkind
  rw [Kind.eq_goalReached_of_isCondition hcondition]

theorem clean_instruction (kind : Kind) (members : List (String × Json)) :
    (instruction kind members).Clean where
  exists_kind := ⟨kind, rfl⟩
  condition := by
    intro tag h
    unfold instruction at h
    dsimp only at h
    split at h
    · exact eq_goalReached_of_condition? h
    · cases h

theorem clean_of_candidate? {entry : Json} {found : Instruction}
    (h : candidate? entry = some found) : found.Clean := by
  unfold candidate? at h
  obtain ⟨members, -, h⟩ := Option.bind_eq_some_iff.1 h
  obtain ⟨type, -, h⟩ := Option.bind_eq_some_iff.1 h
  obtain ⟨kind, -, h⟩ := Option.bind_eq_some_iff.1 h
  cases h
  exact clean_instruction kind members

/-! ## The whole sequence -/

theorem balanced_blocks (ids : IdSupply) (raw : Json) :
    Balanced (roles (blocks ids raw).1) := by
  change Balanced (roles (ids.number (instructions raw)))
  rw [roles_number]
  exact balanced_balance _

/-- Whatever is made of an array has nothing but a tag, or has the instruction of an
entry. -/
theorem exists_of_mem_blocks {ids : IdSupply} {raw : Json} {block : Block}
    (h : block ∈ (blocks ids raw).1) :
    (∃ kind, block.toInstruction = .bare (.known kind)) ∨
      ∃ items, raw = .arr items ∧ ∃ entry ∈ items, candidate? entry = some block.toInstruction := by
  rcases mem_balance (toInstruction_mem_of_mem_number h) with hfound | hclose
  · obtain ⟨entry, hmem, hentry⟩ := List.mem_filterMap.1 hfound
    right
    cases raw with
    | arr items => exact ⟨items, rfl, entry, hmem, hentry⟩
    | null | bool | num | str | obj | void => cases hmem
  · exact Or.inl ⟨.close, hclose⟩

theorem ensureStart_eq (ids : IdSupply) (blocks : List Block) :
    (∃ first rest, blocks = first :: rest ∧ first.tag = .known .start ∧
      (ensureStart ids blocks).1 = blocks) ∨
    (ensureStart ids blocks).1 = ⟨.bare (.known .start), ids.next⟩ :: blocks := by
  unfold ensureStart
  split
  · next hany =>
    left
    obtain ⟨first, hfirst, htag⟩ := (Option.any_eq_true ..).1 hany
    obtain ⟨rest, rfl⟩ := List.head?_eq_some_iff.1 hfirst
    exact ⟨first, rest, rfl, eq_of_beq htag, rfl⟩
  · exact Or.inr rfl

/-- A hydrated sequence is what was found, with a start block in front of it unless
it begins with one. -/
theorem hydrate_eq (ids : IdSupply) (payload : Json) :
    (∃ first rest, (blocks ids (entries payload)).1 = first :: rest ∧
      first.tag = .known .start ∧ (hydrate ids payload).1 = (blocks ids (entries payload)).1) ∨
    ∃ id, (hydrate ids payload).1 =
      ⟨.bare (.known .start), id⟩ :: (blocks ids (entries payload)).1 :=
  (ensureStart_eq (blocks ids (entries payload)).2 _).imp_right fun h => ⟨_, h⟩

theorem balanced_hydrate (ids : IdSupply) (payload : Json) :
    Balanced (roles (hydrate ids payload).1) := by
  have hblocks := balanced_blocks ids (entries payload)
  rcases hydrate_eq ids payload with ⟨-, -, -, -, heq⟩ | ⟨id, heq⟩
  · rw [heq]
    exact hblocks
  · rw [heq, roles_cons]
    exact (balanced_singleton rfl).append hblocks

theorem exists_of_mem_hydrate {ids : IdSupply} {payload : Json} {block : Block}
    (h : block ∈ (hydrate ids payload).1) :
    (∃ kind, block.toInstruction = .bare (.known kind)) ∨
      ∃ items, entries payload = .arr items ∧
        ∃ entry ∈ items, candidate? entry = some block.toInstruction := by
  rcases hydrate_eq ids payload with ⟨-, -, -, -, heq⟩ | ⟨id, heq⟩
  · rw [heq] at h
    exact exists_of_mem_blocks h
  · rw [heq] at h
    rcases List.mem_cons.1 h with rfl | h
    · exact Or.inl ⟨.start, rfl⟩
    · exact exists_of_mem_blocks h

theorem clean_of_mem_hydrate {ids : IdSupply} {payload : Json} {block : Block}
    (h : block ∈ (hydrate ids payload).1) : block.Clean := by
  rcases exists_of_mem_hydrate h with ⟨kind, hkind⟩ | ⟨_, -, _, -, hentry⟩
  · rw [hkind]
    exact .bare kind
  · exact clean_of_candidate? hentry

theorem exists_hydrate_eq_cons (ids : IdSupply) (payload : Json) :
    ∃ first rest, (hydrate ids payload).1 = first :: rest ∧ first.tag = .known .start := by
  rcases hydrate_eq ids payload with ⟨first, rest, hblocks, htag, heq⟩ | ⟨id, heq⟩
  · exact ⟨first, rest, heq.trans hblocks, htag⟩
  · exact ⟨_, _, heq, rfl⟩

end Blockwise.Hydration
