import Mathlib.Data.List.Nodup
import Blockwise.Proofs.Workspace.Scope

/-!
# Indentation

The indentation of a block is counted from the left, and the count goes on at a
closer that ends nothing. `depthBehind` is this count at the end of a sequence, so
a slot is as deep as the count over all that is in front of it
(`getElem?_slotDepths`), and a block is drawn where the count in front of it says
(`depthOf?_split`).

Where the depth count does not give up, both counts agree (`depthBehind_of_level?`).
A balanced part therefore leaves the indentation of everything around it alone
(`depthOf?_insert`), and its own blocks are indented relative to the place at which
it stands (`exists_depthOf?_of_mem_balanced`).
-/

namespace Blockwise

/-- How many bodies are open behind a sequence, if `depth` are open before it. -/
def depthBehind (depth : Nat) (blocks : List Block) : Nat :=
  blocks.foldl depthAfter depth

@[simp] theorem depthBehind_nil (depth : Nat) : depthBehind depth [] = depth := rfl

theorem depthBehind_cons (depth : Nat) (block : Block) (rest : List Block) :
    depthBehind depth (block :: rest) = depthBehind (depthAfter depth block) rest := rfl

theorem depthBehind_append (depth : Nat) (p q : List Block) :
    depthBehind depth (p ++ q) = depthBehind (depthBehind depth p) q :=
  List.foldl_append

/-! ## Single blocks -/

theorem depthAfter_opener {block : Block} (h : block.role = .opener) (depth : Nat) :
    depthAfter depth block = depth + 1 := by
  unfold Instruction.role at h
  simp only [depthAfter, h]

theorem depthAfter_closer {block : Block} (h : block.role = .closer) (depth : Nat) :
    depthAfter depth block = depth - 1 := by
  unfold Instruction.role at h
  simp only [depthAfter, h]

/-- A closer is drawn like what follows it. -/
theorem drawnDepth_closer {block : Block} (h : block.role = .closer) (depth : Nat) :
    drawnDepth depth block = depth - 1 := by
  unfold Instruction.role at h
  simp only [drawnDepth, h]

theorem drawnDepth_of_ne_closer {block : Block} (h : block.role ≠ .closer) (depth : Nat) :
    drawnDepth depth block = depth := by
  unfold Instruction.role at h
  unfold drawnDepth
  split <;> simp_all

theorem depthAfter_of_level? {depth d : Nat} {block : Block}
    (h : block.role.level? depth = some d) : depthAfter depth block = d := by
  rcases Role.cases_of_level?_eq_some h with
    ⟨hrole, rfl⟩ | ⟨hrole, rfl⟩ | ⟨hrole | hrole, rfl⟩
  all_goals
    unfold Instruction.role at hrole
    simp only [depthAfter, hrole, Nat.add_sub_cancel]

/-! ## Slots and blocks of a sequence -/

/-- A slot is as deep as all that is in front of it says. -/
theorem getElem?_slotDepths (depth : Nat) (p q : List Block) :
    (slotDepths depth (p ++ q))[p.length]? = some (depthBehind depth p) := by
  induction p generalizing depth with
  | nil => cases q <;> rfl
  | cons block p ih =>
    rw [List.cons_append, slotDepths, List.length_cons, List.getElem?_cons_succ, ih]
    rfl

theorem blockDepths_append (depth : Nat) (p q : List Block) :
    blockDepths depth (p ++ q) = blockDepths depth p ++ blockDepths (depthBehind depth p) q := by
  induction p generalizing depth with
  | nil => rfl
  | cons block p ih => rw [List.cons_append, blockDepths, ih]; rfl

/-- A block is drawn where the count in front of it says, unless a later block has
the same identity. -/
theorem depthOf?_split {before after : List Block} {block : Block}
    (h : block.id ∉ after.map Block.id) :
    depthOf? (before ++ block :: after) block.id =
      some (drawnDepth (depthBehind 0 before) block) := by
  have hlength : (before.map Block.id).length = (blockDepths 0 before).length := by
    rw [List.length_map, length_blockDepths]
  unfold depthOf?
  rw [blockDepths_append, List.map_append, List.zip_append hlength, List.map_cons, blockDepths,
    List.zip_cons_cons, List.reverse_append, List.reverse_cons, List.append_assoc,
    List.singleton_append, List.lookup_eq_some_iff]
  refine ⟨_, _, rfl, fun entry hentry => bne_iff_ne.2 fun heq => h ?_⟩
  rw [heq]
  exact (List.of_mem_zip (List.mem_reverse.1 hentry)).1

theorem depthOf?_of_nodup {before after : List Block} {block : Block}
    (h : ((before ++ block :: after).map Block.id).Nodup) :
    depthOf? (before ++ block :: after) block.id =
      some (drawnDepth (depthBehind 0 before) block) := by
  rw [List.map_append, List.map_cons] at h
  exact depthOf?_split (List.nodup_cons.1 (List.nodup_append.1 h).2.1).1

theorem exists_depthOf?_of_mem {blocks : List Block} (hids : (blocks.map Block.id).Nodup)
    {block : Block} (hblock : block ∈ blocks) : ∃ depth, depthOf? blocks block.id = some depth := by
  obtain ⟨before, after, rfl⟩ := List.append_of_mem hblock
  exact ⟨_, depthOf?_of_nodup hids⟩

/-- The first block of a part is drawn at the depth of the slot of the part. -/
theorem depthOf?_first {first : Block} {p s q : List Block} (h : first.role ≠ .closer)
    (hids : ((p ++ first :: s ++ q).map Block.id).Nodup) :
    depthOf? (p ++ first :: s ++ q) first.id = some (depthBehind 0 p) := by
  rw [List.append_assoc, List.cons_append] at hids ⊢
  rw [depthOf?_of_nodup hids, drawnDepth_of_ne_closer h]

/-! ## Balanced parts -/

/-- Where the depth count goes through, the indentation follows it. -/
theorem depthBehind_of_level? {depth e : Nat} {blocks : List Block}
    (h : level? depth (roles blocks) = some e) : depthBehind depth blocks = e := by
  induction blocks generalizing depth with
  | nil => exact Option.some.inj h
  | cons block rest ih =>
    rw [roles_cons, level?_cons, Option.bind_eq_some_iff] at h
    obtain ⟨d, hd, hrest⟩ := h
    rw [depthBehind_cons, depthAfter_of_level? hd, ih hrest]

theorem depthBehind_of_balanced {blocks : List Block} (h : Balanced (roles blocks))
    (depth : Nat) : depthBehind depth blocks = depth :=
  depthBehind_of_level? (h.level?_eq depth)

/-- A closer is drawn like the opener whose body it ends. -/
theorem depthOf?_closer {outer inside after : List Block} {opener closer : Block}
    (hopener : opener.role = .opener) (hinside : Balanced (roles inside))
    (hcloser : closer.role = .closer)
    (hids : ((outer ++ opener :: inside ++ closer :: after).map Block.id).Nodup) :
    depthOf? (outer ++ opener :: inside ++ closer :: after) closer.id =
      some (depthBehind 0 outer) := by
  rw [depthOf?_of_nodup hids, drawnDepth_closer hcloser, depthBehind_append, depthBehind_cons,
    depthAfter_opener hopener, depthBehind_of_balanced hinside, Nat.add_sub_cancel]

/-- Putting a balanced part between two others changes the indentation of neither. -/
theorem depthOf?_insert {p s q : List Block} (hs : Balanced (roles s))
    (hids : ((p ++ s ++ q).map Block.id).Nodup) {block : Block} (hblock : block ∈ p ++ q) :
    depthOf? (p ++ s ++ q) block.id = depthOf? (p ++ q) block.id := by
  have hids' : ((p ++ q).map Block.id).Nodup := by
    refine hids.sublist (List.Sublist.map _ ?_)
    exact (List.sublist_append_left p s).append (.refl q)
  rcases List.mem_append.1 hblock with hp | hq
  · obtain ⟨before, after, rfl⟩ := List.append_of_mem hp
    simp only [List.append_assoc, List.cons_append] at hids hids' ⊢
    rw [depthOf?_of_nodup hids, depthOf?_of_nodup hids']
  · obtain ⟨before, after, rfl⟩ := List.append_of_mem hq
    rw [← List.append_assoc] at hids hids' ⊢
    rw [← List.append_assoc, depthOf?_of_nodup hids, depthOf?_of_nodup hids', depthBehind_append,
      depthBehind_append, depthBehind_of_balanced hs, depthBehind_append]

/-- The blocks of a balanced part are indented relative to the place at which the
part stands. -/
theorem exists_depthOf?_of_mem_balanced {s : List Block} (hs : Balanced (roles s))
    {block : Block} (hblock : block ∈ s) :
    ∃ k, ∀ p q : List Block, ((p ++ s ++ q).map Block.id).Nodup →
      depthOf? (p ++ s ++ q) block.id = some (depthBehind 0 p + k) := by
  obtain ⟨before, after, rfl⟩ := List.append_of_mem hblock
  have hlevel := (balanced_iff_level? _).1 hs
  rw [roles_append, level?_append, Option.bind_eq_some_iff] at hlevel
  obtain ⟨e, hbefore, hlevel⟩ := hlevel
  rw [roles_cons, level?_cons, Option.bind_eq_some_iff] at hlevel
  obtain ⟨d, hd, -⟩ := hlevel
  refine ⟨drawnDepth e block, fun p q hids => ?_⟩
  have hbehind : depthBehind (depthBehind 0 p) before = depthBehind 0 p + e := by
    have := depthBehind_of_level? (level?_add hbefore (depthBehind 0 p))
    rwa [Nat.zero_add, Nat.add_comm e] at this
  have hsplit : p ++ (before ++ block :: after) ++ q = (p ++ before) ++ block :: (after ++ q) := by
    simp
  rw [hsplit] at hids ⊢
  rw [depthOf?_of_nodup hids, depthBehind_append, hbehind]
  -- A closer that finds an opener within the part goes one back from a place that is
  -- deeper than the part itself.
  by_cases hrole : block.role = .closer
  · have hpos : e ≠ 0 := fun hzero => by
      rw [(Role.level?_eq_none_iff e _).2 ⟨hrole, hzero⟩] at hd
      cases hd
    rw [drawnDepth_closer hrole, drawnDepth_closer hrole, Nat.add_sub_assoc (by omega)]
  · rw [drawnDepth_of_ne_closer hrole, drawnDepth_of_ne_closer hrole]

end Blockwise
