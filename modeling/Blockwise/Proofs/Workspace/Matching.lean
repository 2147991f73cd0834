import Mathlib.Order.Bounds.Basic
import Blockwise.Proofs.Workspace.Guides

/-!
# Matching closers and indentation

An opener is matched with a closer when what lies between them is balanced
(`matchingCloser_eq_some_iff`). Seen from the slots, this is the first block behind
which the sequence is not deeper than in front of the opener
(`isLeast_matchingCloser_iff`).
-/

namespace Blockwise

theorem exists_split_of_getElem? {α : Type} {l : List α} {i : Nat} {a : α}
    (h : l[i]? = some a) : ∃ before after, l = before ++ a :: after ∧ before.length = i := by
  obtain ⟨hi, rfl⟩ := List.getElem?_eq_some_iff.1 h
  refine ⟨l.take i, l.drop (i + 1), ?_, List.length_take_of_le (Nat.le_of_lt hi)⟩
  rw [List.getElem_cons_drop, List.take_append_drop]

/-! ## The part between an opener and its closer -/

/-- What the depth count takes down to zero is split off with the closer behind it. -/
theorem splitScope?_append {depth : Nat} {inside : List Block} {closer : Block}
    (hinside : level? depth (roles inside) = some 0) (hcloser : closer.role = .closer)
    (rest : List Block) :
    splitScope? depth (inside ++ closer :: rest) = some (inside ++ [closer], rest) := by
  induction inside generalizing depth with
  | nil =>
    obtain rfl := Option.some.inj hinside
    rw [List.nil_append, List.nil_append]
    exact splitScope?_of_none ((Role.level?_eq_none_iff ..).2 ⟨hcloser, rfl⟩) rest
  | cons block inside ih =>
    rw [roles_cons, level?_cons, Option.bind_eq_some_iff] at hinside
    obtain ⟨d, hd, hinside⟩ := hinside
    rw [List.cons_append, splitScope?_of_some hd, ih hinside]
    rfl

theorem matchingCloser_split (before : List Block) (first : Block) (after : List Block) :
    matchingCloser (before ++ first :: after) before.length =
      (splitScope? 0 after).map fun s => before.length + s.1.length := by
  rw [matchingCloser, List.drop_length_add_append, List.drop_one, List.tail_cons]

/-- A closer matches when what lies in front of it is balanced. -/
theorem matchingCloser_eq_some_iff {before after : List Block} {first : Block} {j : Nat} :
    matchingCloser (before ++ first :: after) before.length = some j ↔
      ∃ inside closer rest, after = inside ++ closer :: rest ∧ closer.role = .closer ∧
        Balanced (roles inside) ∧ j = before.length + inside.length + 1 := by
  rw [matchingCloser_split, Option.map_eq_some_iff]
  constructor
  · rintro ⟨⟨scope, rest⟩, hsplit, rfl⟩
    obtain ⟨inside, closer, rfl, hcloser, hinside⟩ := exists_of_splitScope?_eq_some hsplit
    have hafter := append_of_splitScope? hsplit
    rw [List.append_assoc, List.singleton_append] at hafter
    refine ⟨inside, closer, rest, hafter.symm, hcloser, (balanced_iff_level? _).2 hinside, ?_⟩
    simp [Nat.add_assoc]
  · rintro ⟨inside, closer, rest, rfl, hcloser, hinside, rfl⟩
    refine ⟨_, splitScope?_append ((balanced_iff_level? _).1 hinside) hcloser rest, ?_⟩
    simp [Nat.add_assoc]

theorem matchingCloser_of_balanced {before inside after : List Block} {opener closer : Block}
    (hinside : Balanced (roles inside)) (hcloser : closer.role = .closer) :
    matchingCloser (before ++ opener :: inside ++ closer :: after) before.length =
      some (before ++ opener :: inside).length := by
  rw [List.append_assoc, List.cons_append, matchingCloser_eq_some_iff]
  exact ⟨inside, closer, after, rfl, hcloser, hinside, by simp [Nat.add_assoc]⟩

/-- If a sequence ends with a balanced part behind an opener, no later opener has only
a balanced part behind it. -/
theorem length_le_of_balanced_behind {before before' inside inside' : List Block}
    {opener opener' : Block} (hopener' : opener'.role = .opener)
    (hinside : Balanced (roles inside)) (hinside' : Balanced (roles inside'))
    (h : before ++ opener :: inside = before' ++ opener' :: inside') :
    before'.length ≤ before.length := by
  by_contra hlt
  obtain ⟨x, rfl⟩ : ∃ x, inside = x ++ opener' :: inside' := by
    rcases List.append_eq_append_iff.1 h with ⟨x, rfl, hx⟩ | ⟨x, rfl, -⟩
    · cases x with
      | nil =>
        rw [List.append_nil] at hlt
        exact absurd (Nat.le_refl _) hlt
      | cons block x => exact ⟨x, (List.cons_eq_cons.1 hx).2⟩
    · rw [List.length_append] at hlt
      exact absurd (Nat.le_add_right ..) hlt
  -- All before the later opener would have more closers than openers.
  rw [roles_append, roles_cons] at hinside
  have hx := hinside.neverNegative (roles x) (List.prefix_append ..)
  have hnet := hinside.net_eq_zero
  rw [net_append, net_cons, hinside'.net_eq_zero, hopener', Role.weight] at hnet
  omega

/-- Behind two openers of a sequence there cannot both be nothing but a balanced part. -/
theorem length_eq_of_balanced_behind {before before' inside inside' : List Block}
    {opener opener' : Block} (hopener : opener.role = .opener) (hopener' : opener'.role = .opener)
    (hinside : Balanced (roles inside)) (hinside' : Balanced (roles inside'))
    (h : before ++ opener :: inside = before' ++ opener' :: inside') :
    before.length = before'.length :=
  Nat.le_antisymm (length_le_of_balanced_behind hopener hinside' hinside h.symm)
    (length_le_of_balanced_behind hopener' hinside hinside' h)

/-! ## The closer of an opener, seen from the slots -/

/-- Behind the block at `j`, which comes after the one at `i`, a sequence is not
deeper than in front of that one. -/
def ComesBack (blocks : List Block) (i j : Nat) : Prop :=
  i < j ∧ ∃ d e, (slotDepths 0 blocks)[i]? = some d ∧ (slotDepths 0 blocks)[j + 1]? = some e ∧
    e ≤ d

/-- The blocks behind an opener with which a sequence comes back. -/
theorem comesBack_split {before after : List Block} {opener : Block}
    (hopener : opener.role = .opener) {j : Nat} :
    ComesBack (before ++ opener :: after) before.length j ↔
      ∃ p q, after = p ++ q ∧ p ≠ [] ∧ j = before.length + p.length ∧
        depthBehind (depthBehind 0 before + 1) p ≤ depthBehind 0 before := by
  have hbefore := getElem?_slotDepths 0 before (opener :: after)
  have hslot (p q : List Block) (hafter : after = p ++ q) :
      (slotDepths 0 (before ++ opener :: after))[before.length + p.length + 1]? =
        some (depthBehind (depthBehind 0 before + 1) p) := by
    have := getElem?_slotDepths 0 (before ++ opener :: p) q
    rwa [List.append_assoc, List.cons_append, ← hafter, List.length_append, List.length_cons,
      depthBehind_append, depthBehind_cons, depthAfter_opener hopener] at this
  constructor
  · rintro ⟨hij, d, e, hd, he, hle⟩
    have hj := (List.getElem?_eq_some_iff.1 he).1
    rw [length_slotDepths, List.length_append, List.length_cons] at hj
    have hlength : (after.take (j - before.length)).length = j - before.length :=
      List.length_take_of_le (by omega)
    refine ⟨after.take (j - before.length), after.drop (j - before.length),
      (List.take_append_drop ..).symm, ?_, by omega, ?_⟩
    · rw [← List.length_pos_iff]
      omega
    · have := hslot _ _ (List.take_append_drop (j - before.length) after).symm
      rw [hlength, Nat.add_sub_cancel' (Nat.le_of_lt hij), he] at this
      rw [hbefore] at hd
      rwa [← Option.some.inj this, Option.some.inj hd]
  · rintro ⟨p, q, hafter, hp, rfl, hle⟩
    have := List.length_pos_iff.2 hp
    exact ⟨by omega, _, _, hbefore, hslot p q hafter, hle⟩

/-- Within a body that has not been ended, a sequence is deeper than in front of it. -/
theorem lt_depthBehind {e : Nat} {inside p : List Block} (h : level? 0 (roles inside) = some e)
    (hp : p <+: inside) (depth : Nat) : depth < depthBehind (depth + 1) p := by
  obtain ⟨q, rfl⟩ := hp
  rw [roles_append, level?_append, Option.bind_eq_some_iff] at h
  obtain ⟨d, hd, -⟩ := h
  have := depthBehind_of_level? (level?_add hd (depth + 1))
  rw [Nat.zero_add] at this
  omega

theorem isLeast_of_balanced {before inside rest : List Block} {opener closer : Block}
    (hopener : opener.role = .opener) (hinside : Balanced (roles inside))
    (hcloser : closer.role = .closer) :
    IsLeast {j | ComesBack (before ++ opener :: (inside ++ closer :: rest)) before.length j}
      (before.length + inside.length + 1) := by
  constructor
  · refine (comesBack_split hopener).2 ⟨inside ++ [closer], rest, by simp, by simp, ?_, ?_⟩
    · simp [Nat.add_assoc]
    · rw [depthBehind_append, depthBehind_of_balanced hinside, depthBehind_cons,
        depthAfter_closer hcloser, depthBehind_nil, Nat.add_sub_cancel]
  · intro j hj
    obtain ⟨p, q, hsplit, -, rfl, hle⟩ := (comesBack_split hopener).1 hj
    by_contra hlt
    -- A shorter part ends within the body, where the sequence is deeper.
    have hp : p <+: inside := by
      refine List.prefix_of_prefix_length_le ⟨q, hsplit.symm⟩ (List.prefix_append ..) ?_
      omega
    have := lt_depthBehind ((balanced_iff_level? _).1 hinside) hp (depthBehind 0 before)
    omega

/-- The closer of an opener is the first block with which the sequence comes back. -/
theorem isLeast_matchingCloser_iff {blocks : List Block} {i : Nat} {opener : Block}
    (hblock : blocks[i]? = some opener) (hopener : opener.role = .opener) :
    (∀ j, matchingCloser blocks i = some j ↔ IsLeast {j | ComesBack blocks i j} j) ∧
      (matchingCloser blocks i = none ↔ ∀ j, ¬ ComesBack blocks i j) := by
  obtain ⟨before, after, rfl, rfl⟩ := exists_split_of_getElem? hblock
  cases hmatch : matchingCloser (before ++ opener :: after) before.length with
  | none =>
    have hnone : ∀ j, ¬ ComesBack (before ++ opener :: after) before.length j := by
      intro j hj
      rw [matchingCloser_split, Option.map_eq_none_iff] at hmatch
      obtain ⟨e, he⟩ := exists_level?_of_splitScope?_eq_none hmatch
      obtain ⟨p, q, rfl, -, -, hle⟩ := (comesBack_split hopener).1 hj
      have := lt_depthBehind he (List.prefix_append p q) (depthBehind 0 before)
      omega
    refine ⟨fun j => ⟨nofun, fun h => (hnone j h.1).elim⟩, ?_⟩
    exact ⟨fun _ => hnone, fun _ => rfl⟩
  | some k =>
    obtain ⟨inside, closer, rest, rfl, hcloser, hinside, rfl⟩ :=
      matchingCloser_eq_some_iff.1 hmatch
    have hleast : IsLeast {j | ComesBack (before ++ opener :: (inside ++ closer :: rest))
        before.length j} (before.length + inside.length + 1) :=
      isLeast_of_balanced hopener hinside hcloser
    constructor
    · intro j
      rw [Option.some_inj]
      exact ⟨fun h => h ▸ hleast, fun h => hleast.unique h⟩
    · exact ⟨nofun, fun h => (h _ hleast.1).elim⟩

end Blockwise
