import Blockwise.Proofs.Workspace.Relocation

/-!
# Where a block lands

An insertion and a move put a balanced part into a slot. So the first block of the
part is drawn at the depth that the slot had before, the others relative to it, and
nothing else is drawn in another place. For a move it does not matter whether the
slot is looked at with the segment or without it (`Relocates.exists_split`).
-/

namespace Blockwise

/-- A relocation takes a balanced segment out of a sequence and puts it into the rest,
at a place that is as deep as the slot. -/
theorem Relocates.exists_split {segment blocks blocks' : List Block} {start slot : Nat}
    (h : Relocates segment start slot blocks blocks') (hsegment : Balanced (roles segment)) :
    ∃ before after p q, blocks = before ++ segment ++ after ∧ blocks' = p ++ segment ++ q ∧
      before ++ after = p ++ q ∧ (slotDepths 0 blocks)[slot]? = some (depthBehind 0 p) := by
  cases h with
  | backward p passed q ne_nil =>
    refine ⟨p ++ passed, q, p, passed ++ q, rfl, List.append_assoc .., List.append_assoc .., ?_⟩
    rw [List.append_assoc, List.append_assoc]
    exact getElem?_slotDepths ..
  | forward p passed q ne_nil =>
    refine ⟨p, passed ++ q, p ++ passed, q, List.append_assoc .., rfl,
      (List.append_assoc ..).symm, ?_⟩
    have hslot := getElem?_slotDepths 0 (p ++ segment ++ passed) q
    rwa [List.length_append, List.length_append, depthBehind_append, depthBehind_append,
      depthBehind_of_balanced hsegment, ← depthBehind_append] at hslot

theorem Kind.role_ne_closer {kind : Kind} (h : kind ≠ .close) : kind.role ≠ .closer := by
  cases kind with
  | close => exact absurd rfl h
  | _ => exact nofun

namespace Workspace

variable {w w' : Workspace} {id : BlockId} {kind : Kind}

/-! ## Insertions -/

theorem length_insertion (kind : Kind) :
    (insertion kind).length = if kind.role = .opener then 2 else 1 := by
  rw [insertion, List.length_cons]
  split <;> rfl

/-- If the next identities are new, no identity is there twice after an insertion. -/
theorem nodup_blockIds_insert (hids : w.blockIds.Nodup)
    (hnew : ∀ id ∈ w.ids.upcoming (insertion kind).length, id ∉ w.blockIds) (index : Nat) :
    (w.insert index kind).2.blockIds.Nodup := by
  have hlength : (insertion kind).length ≤ 2 ^ 64 := by
    rw [length_insertion]
    split <;> decide
  rw [(perm_blockIds_insert w index kind).nodup_iff]
  refine hids.append (w.ids.nodup_upcoming hlength) fun id hid hid' => ?_
  exact hnew id hid' hid

theorem number_insertion (ids : IdSupply) (kind : Kind) :
    ∃ first rest, ids.number (insertion kind) = first :: rest ∧ first.id = ids.next ∧
      first.role = kind.role ∧
      (kind.role = .opener → ∃ closer, rest = [closer] ∧ closer.role = .closer) := by
  refine ⟨_, _, IdSupply.number_cons .., rfl, rfl, fun hopener => ?_⟩
  rw [if_pos hopener]
  exact ⟨_, rfl, rfl⟩

/-- An insertion puts a balanced part between two others. -/
theorem exists_split_insert (w : Workspace) (hkind : kind ≠ .close) (index : Nat) :
    ∃ p first rest q, w.blocks = p ++ q ∧ (w.insert index kind).2.blocks = p ++ first :: rest ++ q ∧
      p.length = min index w.blocks.length ∧ (w.insert index kind).1 = first.id ∧
      first.role = kind.role ∧ Balanced (roles (first :: rest)) ∧
      (kind.role = .opener → ∃ closer, rest = [closer] ∧ closer.role = .closer) := by
  obtain ⟨first, rest, hnumber, hfirst, hrole, hcloser⟩ := number_insertion w.ids kind
  refine ⟨w.blocks.take index, first, rest, w.blocks.drop index, (List.take_append_drop ..).symm,
    ?_, List.length_take, hfirst.symm, hrole, ?_, hcloser⟩
  · rw [insert, hnumber]
  · rw [← hnumber, roles_number]
    exact balanced_insertion hkind

/-- Where the blocks stand after an insertion into a slot that was `depth` deep. -/
structure InsertedAt (w : Workspace) (index : Nat) (kind : Kind) (depth : Nat) : Prop where
  slotDepth : (slotDepths 0 w.blocks)[min index w.blocks.length]? = some depth
  first : depthOf? (w.insert index kind).2.blocks (w.insert index kind).1 = some depth
  /-- The closer of an inserted opener is right behind it. -/
  closer : kind.role = .opener → ∃ closer,
    (w.insert index kind).2.blocks[min index w.blocks.length + 1]? = some closer ∧
    matchingCloser (w.insert index kind).2.blocks (min index w.blocks.length) =
      some (min index w.blocks.length + 1) ∧
    depthOf? (w.insert index kind).2.blocks closer.id = some depth
  others : ∀ block ∈ w.blocks, ∃ d, depthOf? w.blocks block.id = some d ∧
    depthOf? (w.insert index kind).2.blocks block.id = some d

theorem exists_insertedAt (hids : w.blockIds.Nodup) (hkind : kind ≠ .close)
    (hnew : ∀ id ∈ w.ids.upcoming (insertion kind).length, id ∉ w.blockIds) (index : Nat) :
    ∃ depth, w.InsertedAt index kind depth := by
  have hids' : ((w.insert index kind).2.blocks.map Block.id).Nodup :=
    nodup_blockIds_insert hids hnew index
  obtain ⟨p, first, rest, q, hblocks, hblocks', hplace, hfirst, hrole, hbalanced, hcloser⟩ :=
    w.exists_split_insert hkind index
  rw [hblocks'] at hids'
  refine ⟨depthBehind 0 p, ?_, ?_, fun hopener => ?_, fun block hblock => ?_⟩
  · rw [← hplace, hblocks]
    exact getElem?_slotDepths 0 p q
  · have hne : first.role ≠ .closer := by
      rw [hrole]
      exact Kind.role_ne_closer hkind
    rw [hblocks', hfirst]
    exact depthOf?_first hne hids'
  · obtain ⟨closer, rfl, hcloses⟩ := hcloser hopener
    have hempty : Balanced (roles []) := balanced_nil
    -- The opener ends with the block right behind it.
    have hsplit : p ++ [first, closer] ++ q = p ++ first :: [] ++ closer :: q := by simp
    have hbehind : (p ++ first :: []).length = min index w.blocks.length + 1 := by
      rw [List.length_append, hplace, List.length_singleton]
    rw [hsplit] at hids'
    rw [hblocks', hsplit, ← hbehind, ← hplace]
    refine ⟨closer, ?_, matchingCloser_of_balanced hempty hcloses,
      depthOf?_closer (hrole.trans hopener) hempty hcloses hids'⟩
    rw [List.getElem?_append_right (Nat.le_refl _), Nat.sub_self, List.getElem?_cons_zero]
  · obtain ⟨depth, hdepth⟩ := exists_depthOf?_of_mem hids hblock
    refine ⟨depth, hdepth, ?_⟩
    rw [hblocks', depthOf?_insert hbalanced hids' (hblocks ▸ hblock), ← hblocks, hdepth]

/-! ## Moves -/

/-- Where the blocks stand after a move of `segment`, which begins with the block `id`,
from `depth` into a slot that was `depth'` deep. -/
structure MovedTo (w w' : Workspace) (id : BlockId) (target : Nat) (segment : List Block)
    (depth depth' : Nat) : Prop where
  segmentAt : ∃ start block, w.blocks[start]? = some block ∧ block.id = id ∧
    segmentAt? w.blocks start = some segment
  slotDepth : (slotDepths 0 w.blocks)[min target w.blocks.length]? = some depth'
  before : depthOf? w.blocks id = some depth
  after : depthOf? w'.blocks id = some depth'
  /-- The distance to the first block of the segment is kept. -/
  inside : ∀ block ∈ segment, ∃ k, depthOf? w.blocks block.id = some (depth + k) ∧
    depthOf? w'.blocks block.id = some (depth' + k)
  others : ∀ block ∈ w.blocks, block ∉ segment → ∃ d, depthOf? w.blocks block.id = some d ∧
    depthOf? w'.blocks block.id = some d

theorem exists_movedTo_of_move (hids : w.blockIds.Nodup) {target : Nat}
    (h : w.move id target = (true, w')) :
    ∃ segment depth depth', w.MovedTo w' id target segment depth depth' := by
  have hids' : (w'.blocks.map Block.id).Nodup := nodup_blockIds_of_move hids h
  obtain ⟨start, block, scope, hblock, rfl, hscope, hat, hrelocates, -⟩ :=
    exists_relocates_of_move hids h
  obtain ⟨before, after, p, q, hblocks, hblocks', hrest, hslot⟩ :=
    hrelocates.exists_split hscope.balanced
  refine ⟨block :: scope, depthBehind 0 before, depthBehind 0 p, ⟨start, block, hblock, rfl, hat⟩,
    hslot, ?_, ?_, fun b hb => ?_, fun b hb hnot => ?_⟩
  · rw [blockIds, hblocks] at hids
    rw [hblocks]
    exact depthOf?_first hscope.role_ne_closer hids
  · rw [hblocks'] at hids' ⊢
    exact depthOf?_first hscope.role_ne_closer hids'
  · obtain ⟨k, hk⟩ := exists_depthOf?_of_mem_balanced hscope.balanced hb
    rw [blockIds, hblocks] at hids
    rw [hblocks'] at hids'
    exact ⟨k, hblocks ▸ hk before after hids, hblocks' ▸ hk p q hids'⟩
  · obtain ⟨depth, hdepth⟩ := exists_depthOf?_of_mem hids hb
    refine ⟨depth, hdepth, ?_⟩
    have hmem : b ∈ before ++ after := by
      rw [hblocks] at hb
      simp only [List.mem_append] at hb ⊢
      tauto
    rw [blockIds, hblocks] at hids
    rw [hblocks'] at hids' ⊢
    -- Without the segment both sequences are the same.
    rw [depthOf?_insert hscope.balanced hids' (hrest ▸ hmem), ← hrest,
      ← depthOf?_insert hscope.balanced hids hmem, ← hblocks, hdepth]

/-- A block lands at the depth that its slot had, whether it is inserted or moved, and
every other block stays at its own depth; what moves along with a block stays where it
was relative to it. -/
theorem lands_at_slotDepth (hids : w.blockIds.Nodup) :
    (∀ index kind, kind ≠ .close →
      (∀ id ∈ w.ids.upcoming (insertion kind).length, id ∉ w.blockIds) →
      ∃ depth, w.InsertedAt index kind depth) ∧
    ∀ id target w', w.move id target = (true, w') →
      ∃ segment depth depth', w.MovedTo w' id target segment depth depth' :=
  ⟨fun index _ hkind hnew => exists_insertedAt hids hkind hnew index,
    fun _ _ _ hmove => exists_movedTo_of_move hids hmove⟩

/-- A loop is inserted behind a loop that nothing ends, and another one is moved there,
in a sequence that begins with a closer. -/
theorem lands_at_slotDepth_unended_loop :
    let scope : List Block :=
      [{ tag := .known .loop, id := "b" }, { tag := .known .move, id := "c" },
        { tag := .known .close, id := "d" }]
    let unended : Block := { tag := .known .loop, id := "e" }
    let stray : Block := { tag := .known .close, id := "a" }
    let w : Workspace := { blocks := stray :: scope ++ [unended] }
    let moved : Workspace := { blocks := stray :: unended :: scope }
    w.blockIds.Nodup ∧ w.move "b" 99 = (true, moved) ∧ w.InsertedAt 99 .loop 1 ∧
      w.MovedTo moved "b" 99 scope 0 1 := by
  intro scope unended stray w moved
  have hids : w.blockIds.Nodup := by decide
  have hmove : w.move "b" 99 = (true, moved) := rfl
  obtain ⟨hinsert, hmoves⟩ := lands_at_slotDepth hids
  obtain ⟨depth, hinserted⟩ := hinsert 99 .loop (by decide) (by decide)
  obtain ⟨segment, depth₁, depth₂, hmoved⟩ := hmoves "b" 99 moved hmove
  obtain rfl : 1 = depth := Option.some.inj hinserted.slotDepth
  obtain rfl : 0 = depth₁ := Option.some.inj hmoved.before
  obtain rfl : 1 = depth₂ := Option.some.inj hmoved.slotDepth
  obtain ⟨start, block, hblock, hid, hsegment⟩ := hmoved.segmentAt
  have hstart : ∀ i < 5, w.blocks[i]?.map Block.id = some "b" → i = 1 := by decide
  obtain rfl : start = 1 := by
    refine hstart start (List.getElem?_eq_some_iff.1 hblock).1 ?_
    rw [hblock, Option.map_some, hid]
  obtain rfl : scope = segment := Option.some.inj hsegment
  exact ⟨hids, hmove, hinserted, hmoved⟩

end Workspace

end Blockwise
