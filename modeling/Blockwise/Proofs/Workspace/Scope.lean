import Blockwise.Workspace.Basic
import Blockwise.Proofs.Program.Depth

/-!
# Scopes and segments

`splitScope?` looks for the closer of a body that has been begun. It follows the
depth count and stops where that count gives up (`splitScope?_of_none`,
`splitScope?_of_some`). So an opener up to its closer is balanced, and with it
all that moves along with a block (`balanced_of_segment?`); and in a sequence
that nests no opener is without a closer (`segment?_ne_none`).
-/

namespace Blockwise

/-! ## The closer of a body -/

/-- The search ends at a block where the depth count gives up. -/
theorem splitScope?_of_none {depth : Nat} {block : Block}
    (h : block.role.level? depth = none) (rest : List Block) :
    splitScope? depth (block :: rest) = some ([block], rest) := by
  obtain ⟨hcloser, rfl⟩ := (Role.level?_eq_none_iff ..).1 h
  unfold Instruction.role at hcloser
  simp only [splitScope?, hcloser]

/-- Otherwise the search goes on as deep as the depth count says. -/
theorem splitScope?_of_some {depth d : Nat} {block : Block}
    (h : block.role.level? depth = some d) (rest : List Block) :
    splitScope? depth (block :: rest) =
      (splitScope? d rest).map fun s => (block :: s.1, s.2) := by
  rcases Role.cases_of_level?_eq_some h with
    ⟨hrole, rfl⟩ | ⟨hrole, rfl⟩ | ⟨hrole | hrole, rfl⟩
  all_goals
    unfold Instruction.role at hrole
    simp only [splitScope?, hrole]

/-- What is split off ends with a closer, and the depth count comes down to zero
in front of it. -/
theorem exists_of_splitScope?_eq_some {depth : Nat} {blocks scope rest : List Block}
    (h : splitScope? depth blocks = some (scope, rest)) :
    ∃ inside closer, scope = inside ++ [closer] ∧ closer.role = .closer ∧
      level? depth (roles inside) = some 0 := by
  induction blocks generalizing depth scope with
  | nil => cases h
  | cons block blocks ih =>
    cases hlevel : block.role.level? depth with
    | none =>
      rw [splitScope?_of_none hlevel] at h
      obtain ⟨hcloser, rfl⟩ := (Role.level?_eq_none_iff ..).1 hlevel
      cases h
      exact ⟨[], block, rfl, hcloser, rfl⟩
    | some d =>
      rw [splitScope?_of_some hlevel, Option.map_eq_some_iff] at h
      obtain ⟨⟨scope', rest'⟩, hsplit, heq⟩ := h
      cases heq
      obtain ⟨inside, closer, rfl, hcloser, hinside⟩ := ih hsplit
      refine ⟨block :: inside, closer, rfl, hcloser, ?_⟩
      rw [roles_cons, level?_cons, hlevel, Option.bind_some, hinside]

/-- Nothing is split off where the depth count goes through. -/
theorem exists_level?_of_splitScope?_eq_none {depth : Nat} {blocks : List Block}
    (h : splitScope? depth blocks = none) :
    ∃ e, level? depth (roles blocks) = some e := by
  induction blocks generalizing depth with
  | nil => exact ⟨depth, rfl⟩
  | cons block blocks ih =>
    cases hlevel : block.role.level? depth with
    | none =>
      rw [splitScope?_of_none hlevel] at h
      cases h
    | some d =>
      rw [splitScope?_of_some hlevel, Option.map_eq_none_iff] at h
      obtain ⟨e, he⟩ := ih h
      refine ⟨e, ?_⟩
      rw [roles_cons, level?_cons, hlevel, Option.bind_some, he]

/-! ## Segments -/

theorem balanced_of_splitScope? {opener : Block} {blocks scope rest : List Block}
    (hopener : opener.role = .opener) (h : splitScope? 0 blocks = some (scope, rest)) :
    Balanced (roles (opener :: scope)) := by
  obtain ⟨inside, closer, rfl, hcloser, hinside⟩ := exists_of_splitScope?_eq_some h
  have hbalanced : Balanced (roles inside) := (balanced_iff_level? _).2 hinside
  rw [roles_cons, roles_append, roles_cons, roles_nil, hopener, hcloser]
  exact hbalanced.scope

theorem segment?_of_closer {block : Block} (h : block.role = .closer) (after : List Block) :
    segment? block after = none := by
  unfold Instruction.role at h
  simp only [segment?, h]

theorem segment?_of_opener {block : Block} (h : block.role = .opener) (after : List Block) :
    segment? block after = (splitScope? 0 after).map fun s => (block :: s.1, s.2) := by
  unfold Instruction.role at h
  simp only [segment?, h]

theorem segment?_of_statement {block : Block} (h : block.role.weight = 0)
    (after : List Block) : segment? block after = some ([block], after) := by
  unfold Instruction.role at h
  cases hrole : block.tag.role with
  | opener => rw [hrole] at h; exact absurd h (by decide)
  | closer => rw [hrole] at h; exact absurd h (by decide)
  | ordinary => simp only [segment?, hrole]
  | condition => simp only [segment?, hrole]

theorem append_of_segment? {block : Block} {after segment rest : List Block}
    (h : segment? block after = some (segment, rest)) : segment ++ rest = block :: after := by
  rcases block.role.opener_or_closer_or_weight_eq_zero with hopener | hcloser | hleaf
  · rw [segment?_of_opener hopener, Option.map_eq_some_iff] at h
    obtain ⟨⟨scope, rest'⟩, hsplit, heq⟩ := h
    cases heq
    rw [List.cons_append, append_of_splitScope? hsplit]
  · rw [segment?_of_closer hcloser] at h
    cases h
  · rw [segment?_of_statement hleaf] at h
    cases h
    rfl

theorem balanced_of_segment? {block : Block} {after segment rest : List Block}
    (h : segment? block after = some (segment, rest)) : Balanced (roles segment) := by
  rcases block.role.opener_or_closer_or_weight_eq_zero with hopener | hcloser | hleaf
  · rw [segment?_of_opener hopener, Option.map_eq_some_iff] at h
    obtain ⟨⟨scope, rest'⟩, hsplit, heq⟩ := h
    cases heq
    exact balanced_of_splitScope? hopener hsplit
  · rw [segment?_of_closer hcloser] at h
    cases h
  · rw [segment?_of_statement hleaf] at h
    cases h
    exact balanced_singleton hleaf

/-- In a balanced sequence every block but a closer can be moved: an opener
without a closer would leave its body open. -/
theorem segment?_ne_none {before after : List Block} {block : Block}
    (h : Balanced (roles (before ++ block :: after))) (hcloser : block.role ≠ .closer) :
    segment? block after ≠ none := by
  intro hnone
  rcases block.role.opener_or_closer_or_weight_eq_zero with hopener | hcloser' | hleaf
  · rw [segment?_of_opener hopener, Option.map_eq_none_iff] at hnone
    -- Then the count goes through `after` without closing the opener.
    obtain ⟨e, he⟩ := exists_level?_of_splitScope?_eq_none hnone
    have hlevel := (balanced_iff_level? _).1 h
    rw [roles_append, level?_append, Option.bind_eq_some_iff] at hlevel
    obtain ⟨depth, -, hlevel⟩ := hlevel
    rw [roles_cons, level?_cons, hopener, Role.level?, Option.bind_some,
      ← Nat.zero_add (depth + 1), level?_add he] at hlevel
    cases hlevel
  · exact hcloser hcloser'
  · rw [segment?_of_statement hleaf] at hnone
    cases hnone

end Blockwise
