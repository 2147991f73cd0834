import Blockwise.Proofs.Workspace.Identity
import Blockwise.Proofs.Workspace.Matching

/-!
# Moves

What moves along with a block does not depend on what follows it (`IsSegment`), so
a segment is the same wherever it stands. A move takes it over the blocks in front
of it or over the blocks behind it (`Relocates`). Both ways are the reverse of each
other, and so a move is undone by a move (`Relocates.undo`); and what is left when
the segment is removed is the same before and after.
-/

namespace Blockwise

/-! ## Segments -/

theorem splitAt?_append {before : List Block} {block : Block}
    (h : block.id ∉ before.map Block.id) (after : List Block) :
    splitAt? block.id (before ++ block :: after) = some (before, block, after) := by
  induction before with
  | nil => exact if_pos rfl
  | cons first before ih =>
    rw [List.map_cons, List.mem_cons, not_or] at h
    rw [List.cons_append, splitAt?, if_neg (Ne.symm h.1), ih h.2]
    rfl

theorem splitAt?_eq_none {id : BlockId} {blocks : List Block} (h : id ∉ blocks.map Block.id) :
    splitAt? id blocks = none := by
  induction blocks with
  | nil => rfl
  | cons block rest ih =>
    rw [List.map_cons, List.mem_cons, not_or] at h
    rw [splitAt?, if_neg (Ne.symm h.1), ih h.2]
    rfl

theorem notMem_of_nodup_split {before after : List Block} {block : Block}
    (h : ((before ++ block :: after).map Block.id).Nodup) : block.id ∉ before.map Block.id := by
  rw [List.map_append, List.map_cons] at h
  exact fun hmem => (List.nodup_append.1 h).2.2 _ hmem _ List.mem_cons_self rfl

theorem notMem_of_nodup_segment {before scope after : List Block} {block : Block}
    (h : ((before ++ block :: scope ++ after).map Block.id).Nodup) :
    block.id ∉ before.map Block.id := by
  rw [List.append_assoc, List.cons_append] at h
  exact notMem_of_nodup_split h

theorem splitAt?_segment {before scope after : List Block} {block : Block}
    (h : block.id ∉ before.map Block.id) :
    splitAt? block.id (before ++ block :: scope ++ after) =
      some (before, block, scope ++ after) := by
  rw [List.append_assoc, List.cons_append]
  exact splitAt?_append h _

/-- With a block moves along exactly `scope`, if that stands behind it, whatever
follows. -/
def IsSegment (block : Block) (scope : List Block) : Prop :=
  ∀ rest, segment? block (scope ++ rest) = some (block :: scope, rest)

theorem isSegment_scope {opener closer : Block} {inside : List Block}
    (hopener : opener.role = .opener) (hinside : Balanced (roles inside))
    (hcloser : closer.role = .closer) : IsSegment opener (inside ++ [closer]) := by
  intro rest
  rw [segment?_of_opener hopener, List.append_assoc, List.singleton_append,
    splitScope?_append ((balanced_iff_level? _).1 hinside) hcloser]
  rfl

theorem isSegment_nil {block : Block} (hleaf : block.role.weight = 0) : IsSegment block [] :=
  segment?_of_statement hleaf

theorem exists_isSegment_of_segment? {block : Block} {after segment rest : List Block}
    (h : segment? block after = some (segment, rest)) :
    ∃ scope, segment = block :: scope ∧ after = scope ++ rest ∧ IsSegment block scope := by
  rcases block.role.opener_or_closer_or_weight_eq_zero with hopener | hcloser | hleaf
  · rw [segment?_of_opener hopener, Option.map_eq_some_iff] at h
    obtain ⟨⟨scope, rest'⟩, hsplit, heq⟩ := h
    cases heq
    refine ⟨scope, rfl, (append_of_splitScope? hsplit).symm, ?_⟩
    obtain ⟨inside, closer, rfl, hcloser, hinside⟩ := exists_of_splitScope?_eq_some hsplit
    exact isSegment_scope hopener ((balanced_iff_level? _).2 hinside) hcloser
  · rw [segment?_of_closer hcloser] at h
    cases h
  · rw [segment?_of_statement hleaf] at h
    cases h
    exact ⟨[], rfl, rfl, isSegment_nil hleaf⟩

namespace IsSegment

variable {block : Block} {scope : List Block}

theorem balanced (h : IsSegment block scope) : Balanced (roles (block :: scope)) :=
  balanced_of_segment? (h [])

theorem role_ne_closer (h : IsSegment block scope) : block.role ≠ .closer := by
  intro hcloser
  have := h []
  rw [segment?_of_closer hcloser] at this
  cases this

end IsSegment

/-- What moves along with the block at an index, told by indices: the block alone
if it is no opener, or else the range from it to its closer. -/
def segmentAt? (blocks : List Block) (i : Nat) : Option (List Block) :=
  blocks[i]?.bind fun block =>
    if block.role = .opener then
      (matchingCloser blocks i).map fun j => (blocks.drop i).take (j + 1 - i)
    else some [block]

theorem segmentAt?_split {block : Block} (h : block.role ≠ .closer) (before after : List Block) :
    segmentAt? (before ++ block :: after) before.length =
      (segment? block after).map Prod.fst := by
  have hblock : (before ++ block :: after)[before.length]? = some block := by simp
  rw [segmentAt?, hblock, Option.bind_some]
  by_cases hopener : block.role = .opener
  · rw [if_pos hopener, matchingCloser_split, segment?_of_opener hopener, Option.map_map,
      Option.map_map]
    refine Option.map_congr fun ⟨scope, rest⟩ hsplit => ?_
    -- The closer is as far behind the opener as the scope is long.
    have hlength : before.length + scope.length + 1 - before.length = scope.length + 1 := by omega
    rw [← append_of_splitScope? hsplit]
    simp only [Function.comp, hlength, List.drop_left, List.take_succ_cons, List.take_left]
  · rw [if_neg hopener, segment?_of_statement ((Role.weight_eq_zero_iff _).2 ⟨hopener, h⟩)]
    rfl

/-! ## Slots and places -/

namespace Workspace

variable {start span target length : Nat}

/-- A slot that does not touch the segment is counted without the segment if it lies
behind it. -/
theorem placeAmongOthers_of_outside {slot : Nat} (hout : ¬ (start ≤ slot ∧ slot ≤ start + span)) :
    placeAmongOthers start span slot = if slot < start then (slot : Int) else slot - span := by
  unfold placeAmongOthers
  split <;> split <;> omega

/-- A place is looked for only if the target does not lie inside the segment, and then it
is one of the places among the other blocks. -/
theorem placeAmongOthers_mem (hlength : start + span ≤ length)
    (hout : ¬ (start < target ∧ target < start + span)) :
    0 ≤ placeAmongOthers start span (min target length) ∧
      placeAmongOthers start span (min target length) ≤ length - span := by
  unfold placeAmongOthers
  split <;> omega

/-- The two tests for a move that has nothing to do are one test of the slot. -/
theorem touches_iff (hspan : 0 < span) (hlength : start + span ≤ length) :
    (start < target ∧ target < start + span) ∨
        placeAmongOthers start span (min target length) = start ↔
      start ≤ min target length ∧ min target length ≤ start + span := by
  unfold placeAmongOthers
  split <;> omega

end Workspace

/-! ## From place to place -/

/-- The second sequence has `segment` at the slot `slot` of the first one, where it
begins at `start`; all other blocks are in the same order. -/
inductive Relocates (segment : List Block) : Nat → Nat → List Block → List Block → Prop
  | backward (p passed q : List Block) (ne_nil : passed ≠ []) :
    Relocates segment (p.length + passed.length) p.length
      (p ++ passed ++ segment ++ q) (p ++ segment ++ passed ++ q)
  | forward (p passed q : List Block) (ne_nil : passed ≠ []) :
    Relocates segment p.length (p.length + segment.length + passed.length)
      (p ++ segment ++ passed ++ q) (p ++ passed ++ segment ++ q)

namespace Relocates

variable {segment blocks blocks' : List Block} {start slot : Nat}

/-- Every slot that does not touch the segment is a place to which it can go. -/
theorem of_outside {before after : List Block}
    (hslot : slot ≤ (before ++ segment ++ after).length)
    (hout : ¬ (before.length ≤ slot ∧ slot ≤ before.length + segment.length)) :
    let others := before ++ after
    let place := Workspace.placeAmongOthers before.length segment.length slot
    Relocates segment before.length slot (before ++ segment ++ after)
      (others.take place.toNat ++ segment ++ others.drop place.toNat) := by
  intro others place
  have hplace : place = _ := Workspace.placeAmongOthers_of_outside hout
  rw [List.length_append, List.length_append] at hslot
  by_cases hlt : slot < before.length
  · have hplace : place.toNat = slot := by
      rw [hplace, if_pos hlt]
      rfl
    have hp : (before.take slot).length = slot := List.length_take_of_le (Nat.le_of_lt hlt)
    have hpassed : before.drop slot ≠ [] := by
      rw [Ne, List.drop_eq_nil_iff]
      omega
    have := @backward segment (before.take slot) (before.drop slot) after hpassed
    rw [hp, List.length_drop, Nat.add_sub_cancel' (Nat.le_of_lt hlt), List.take_append_drop] at this
    rwa [hplace, List.take_append_of_le_length (Nat.le_of_lt hlt),
      List.drop_append_of_le_length (Nat.le_of_lt hlt), ← List.append_assoc]
  · obtain ⟨k, rfl⟩ : ∃ k, slot = before.length + segment.length + k :=
      Nat.exists_eq_add_of_le (by omega)
    have hplace : place.toNat = before.length + k := by
      rw [hplace, if_neg hlt]
      omega
    have hp : (after.take k).length = k := List.length_take_of_le (by omega)
    have hpassed : after.take k ≠ [] := by
      rw [← List.length_pos_iff]
      omega
    have := @forward segment before (after.take k) (after.drop k) hpassed
    rw [hp, List.append_assoc (before ++ segment), List.take_append_drop] at this
    rwa [hplace, List.take_length_add_append, List.drop_length_add_append]

/-- A segment is brought back to where it was. -/
theorem undo (h : Relocates segment start slot blocks blocks') :
    ∃ start', Relocates segment start' (if slot < start then start + segment.length else start)
      blocks' blocks := by
  cases h with
  | backward p passed q ne_nil =>
    have hlt : p.length < p.length + passed.length :=
      Nat.lt_add_of_pos_right (List.length_pos_iff.2 ne_nil)
    rw [if_pos hlt, Nat.add_right_comm]
    exact ⟨_, forward p passed q ne_nil⟩
  | forward p passed q ne_nil =>
    rw [if_neg (by omega)]
    exact ⟨_, backward p passed q ne_nil⟩

end Relocates

/-! ## Moves and removals -/

namespace Workspace

variable {ids : IdSupply} {block : Block} {scope before after blocks : List Block}

/-- A move of a segment does something exactly when the slot does not touch it. -/
theorem move_of_isSegment (hid : block.id ∉ before.map Block.id) (h : IsSegment block scope)
    (hblocks : blocks = before ++ block :: scope ++ after) (target : Nat) :
    let slot := min target blocks.length
    let others := before ++ after
    let place := placeAmongOthers before.length (block :: scope).length slot
    (mk blocks ids).move block.id target =
      if before.length ≤ slot ∧ slot ≤ before.length + (block :: scope).length then
        (false, mk blocks ids)
      else (true, mk (others.take place.toNat ++ block :: scope ++ others.drop place.toNat) ids) := by
  intro slot others place
  have hsplit := hblocks ▸ splitAt?_segment hid
  have hlength : before.length + (block :: scope).length ≤ blocks.length := by
    rw [hblocks, List.length_append, List.length_append]
    exact Nat.le_add_right _ _
  have htouches : before.length < target ∧ target < before.length + (block :: scope).length ∨
        place = before.length ↔
      before.length ≤ slot ∧ slot ≤ before.length + (block :: scope).length :=
    touches_iff (List.length_pos_of_ne_nil (List.cons_ne_nil block scope)) hlength
  simp only [← htouches, move, hsplit, h after]
  -- On the left the two tests are made one after the other.
  by_cases hinside : before.length < target ∧ target < before.length + (block :: scope).length
  · rw [if_pos hinside, if_pos (Or.inl hinside)]
  · rw [if_neg hinside]
    simp only [hinside, false_or]
    rfl

theorem move_eq_true_iff (hid : block.id ∉ before.map Block.id) (h : IsSegment block scope)
    (hblocks : blocks = before ++ block :: scope ++ after) {target : Nat} {w' : Workspace} :
    let slot := min target blocks.length
    let others := before ++ after
    let place := placeAmongOthers before.length (block :: scope).length slot
    (mk blocks ids).move block.id target = (true, w') ↔
      ¬ (before.length ≤ slot ∧ slot ≤ before.length + (block :: scope).length) ∧
      w' = mk (others.take place.toNat ++ block :: scope ++ others.drop place.toNat) ids := by
  intro slot others place
  rw [move_of_isSegment hid h hblocks]
  split
  case isTrue htouches => exact ⟨nofun, fun hout => absurd htouches hout.1⟩
  case isFalse hout =>
    constructor
    · rintro ⟨⟩
      exact ⟨hout, rfl⟩
    · rintro ⟨-, rfl⟩
      rfl

theorem move_of_segment?_eq_none (hid : block.id ∉ before.map Block.id)
    (h : segment? block after = none) (hblocks : blocks = before ++ block :: after)
    (target : Nat) : (mk blocks ids).move block.id target = (false, mk blocks ids) := by
  subst hblocks
  simp only [move, splitAt?_append hid, h]

theorem remove_of_isSegment (hid : block.id ∉ before.map Block.id) (h : IsSegment block scope)
    (hblocks : blocks = before ++ block :: scope ++ after) :
    (mk blocks ids).remove block.id = (true, mk (before ++ after) ids) := by
  have hsplit := hblocks ▸ splitAt?_segment hid
  have hcloser : block.tag.isCloser = false := by
    rw [Tag.isCloser, beq_eq_false_iff_ne]
    exact h.role_ne_closer
  simp [remove, hsplit, h after, hcloser]

end Workspace

namespace Relocates

variable {ids : IdSupply} {block : Block} {scope blocks blocks' : List Block}
  {start slot target : Nat}

theorem move_eq (hmove : Relocates (block :: scope) start slot blocks blocks')
    (hids : (blocks.map Block.id).Nodup) (h : IsSegment block scope)
    (hslot : min target blocks.length = slot) :
    (Workspace.mk blocks ids).move block.id target = (true, .mk blocks' ids) := by
  cases hmove with
  | backward p passed q ne_nil =>
    have hpos := List.length_pos_iff.2 ne_nil
    refine (Workspace.move_eq_true_iff (notMem_of_nodup_segment hids) h rfl).2 ?_
    rw [hslot, List.length_append]
    have hout : ¬ (p.length + passed.length ≤ p.length ∧
        p.length ≤ p.length + passed.length + (block :: scope).length) := by
      omega
    refine ⟨hout, ?_⟩
    rw [Workspace.placeAmongOthers_of_outside hout, if_pos (by omega), Int.toNat_natCast,
      List.append_assoc p passed q, List.take_left, List.drop_left, List.append_assoc _ passed]
  | forward p passed q ne_nil =>
    have hpos := List.length_pos_iff.2 ne_nil
    rw [List.append_assoc (p ++ _)] at hids hslot ⊢
    refine (Workspace.move_eq_true_iff (notMem_of_nodup_segment hids) h rfl).2 ?_
    rw [hslot]
    have hout : ¬ (p.length ≤ p.length + (block :: scope).length + passed.length ∧
        p.length + (block :: scope).length + passed.length ≤
          p.length + (block :: scope).length) := by
      omega
    refine ⟨hout, ?_⟩
    rw [Workspace.placeAmongOthers_of_outside hout, if_neg (by omega)]
    have hplace : (((p.length + (block :: scope).length + passed.length : Nat) : Int) -
        (block :: scope).length).toNat = (p ++ passed).length := by
      rw [List.length_append]
      omega
    rw [hplace, ← List.append_assoc p passed q, List.take_left, List.drop_left]

/-- What is left without the segment is the same before and after. -/
theorem exists_remove_eq (hmove : Relocates (block :: scope) start slot blocks blocks')
    (hids : (blocks.map Block.id).Nodup) (hids' : (blocks'.map Block.id).Nodup)
    (h : IsSegment block scope) (ids : IdSupply) :
    ∃ left, (Workspace.mk blocks ids).remove block.id = (true, left) ∧
      (Workspace.mk blocks' ids).remove block.id = (true, left) := by
  have hfound {before after : List Block}
      (hids : ((before ++ block :: scope ++ after).map Block.id).Nodup) :
      (Workspace.mk (before ++ block :: scope ++ after) ids).remove block.id =
        (true, .mk (before ++ after) ids) :=
    Workspace.remove_of_isSegment (notMem_of_nodup_segment hids) h rfl
  cases hmove with
  | backward p passed q ne_nil =>
    rw [List.append_assoc (p ++ block :: scope)] at hids' ⊢
    exact ⟨_, hfound hids, by rw [hfound hids', List.append_assoc]⟩
  | forward p passed q ne_nil =>
    rw [List.append_assoc (p ++ block :: scope)] at hids ⊢
    exact ⟨_, hfound hids, by rw [hfound hids', List.append_assoc]⟩

end Relocates

namespace Workspace

variable {w w' : Workspace} {id : BlockId} {target : Nat}

theorem nodup_blockIds_of_move (hids : w.blockIds.Nodup) (h : w.move id target = (true, w')) :
    w'.blockIds.Nodup := by
  have hperm := w.perm_move id target
  rw [h] at hperm
  exact (hperm.map Block.id).nodup_iff.2 hids

/-- A move that does something relocates a segment that begins with the block in
question. -/
theorem exists_relocates_of_move (hids : w.blockIds.Nodup) (h : w.move id target = (true, w')) :
    ∃ start block scope, w.blocks[start]? = some block ∧ block.id = id ∧
      IsSegment block scope ∧ segmentAt? w.blocks start = some (block :: scope) ∧
      Relocates (block :: scope) start (min target w.blocks.length) w.blocks w'.blocks ∧
      w'.ids = w.ids := by
  obtain ⟨blocks, ids⟩ := w
  have hmove := h
  unfold move at hmove
  cases hsplit : splitAt? id blocks with
  | none =>
    simp only [hsplit] at hmove
    cases hmove
  | some s =>
    obtain ⟨before, block, after⟩ := s
    simp only [hsplit] at hmove
    cases hsegment : segment? block after with
    | none =>
      simp only [hsegment] at hmove
      cases hmove
    | some t =>
      obtain ⟨segment, rest⟩ := t
      obtain ⟨rfl, rfl⟩ := append_of_splitAt? hsplit
      obtain ⟨scope, rfl, rfl, hscope⟩ := exists_isSegment_of_segment? hsegment
      have hblocks : before ++ block :: (scope ++ rest) = before ++ block :: scope ++ rest := by
        simp
      obtain ⟨hout, rfl⟩ := (move_eq_true_iff (notMem_of_nodup_split hids) hscope hblocks).1 h
      refine ⟨before.length, block, scope, by simp, rfl, hscope, ?_, ?_, rfl⟩
      · rw [segmentAt?_split hscope.role_ne_closer, hsegment]
        rfl
      · rw [hblocks] at hout ⊢
        exact Relocates.of_outside (Nat.min_le_right ..) hout

/-- Where a block has been moved, it can be removed with the same result as before
the move. -/
theorem edit_move_edit_remove (hids : w.blockIds.Nodup) (id : BlockId) (target : Nat) :
    (w.edit (.move id target)).edit (.remove id) = w.edit (.remove id) := by
  change ((w.move id target).2.remove id).2 = (w.remove id).2
  rcases w.attempt_cases (e := .move id target) nofun with hkept | ⟨_, hmove⟩
  · have hkept : w.move id target = (false, w) := hkept
    rw [hkept]
  · have hmove : w.move id target = (true, _) := hmove
    obtain ⟨start, block, scope, -, rfl, hscope, -, hrelocates, hsupply⟩ :=
      exists_relocates_of_move hids hmove
    obtain ⟨left, hleft, hleft'⟩ :=
      hrelocates.exists_remove_eq hids (nodup_blockIds_of_move hids hmove) hscope w.ids
    rw [← hsupply] at hleft'
    rw [hmove, hleft, hleft']

/-- Whether a block is moved is told by its segment and the slot alone. -/
theorem fst_move_iff (ids : IdSupply) {before : List Block} {block : Block}
    (hid : block.id ∉ before.map Block.id) (after : List Block) (target : Nat) :
    let blocks := before ++ block :: after
    let slot := min target blocks.length
    ((mk blocks ids).move block.id target).1 = true ↔ block.role ≠ .closer ∧
      ∃ segment, segmentAt? blocks before.length = some segment ∧
        ¬ (before.length ≤ slot ∧ slot ≤ before.length + segment.length) := by
  intro blocks slot
  cases hsegment : segment? block after with
  | none =>
    rw [move_of_segment?_eq_none hid hsegment rfl]
    refine ⟨nofun, ?_⟩
    rintro ⟨hrole, segment, hat, -⟩
    rw [segmentAt?_split hrole, hsegment] at hat
    cases hat
  | some s =>
    obtain ⟨segment, rest⟩ := s
    obtain ⟨scope, rfl, rfl, hscope⟩ := exists_isSegment_of_segment? hsegment
    have hblocks : blocks = before ++ block :: scope ++ rest := by simp [blocks]
    have hat : segmentAt? blocks before.length = some (block :: scope) := by
      rw [segmentAt?_split hscope.role_ne_closer, hsegment]
      rfl
    rw [move_of_isSegment hid hscope hblocks, hat]
    split
    case isTrue htouches =>
      refine ⟨nofun, ?_⟩
      rintro ⟨-, _, ⟨⟩, hout⟩
      exact absurd htouches hout
    case isFalse hout => exact ⟨fun _ => ⟨hscope.role_ne_closer, _, rfl, hout⟩, fun _ => rfl⟩

/-- The block of a segment that has been moved is moved back to where it was. -/
theorem move_undo {before after : List Block} {block : Block} {scope : List Block}
    (hids : w.blockIds.Nodup) (hscope : IsSegment block scope)
    (hblocks : w.blocks = before ++ block :: scope ++ after)
    (h : w.move block.id target = (true, w')) :
    let slot := min target w.blocks.length
    let others := before ++ after
    let place := placeAmongOthers before.length (block :: scope).length slot
    ¬ (before.length ≤ slot ∧ slot ≤ before.length + (block :: scope).length) ∧
      w' = { w with
        blocks := others.take place.toNat ++ block :: scope ++ others.drop place.toNat } ∧
      w'.move block.id (if slot < before.length then before.length + (block :: scope).length
        else before.length) = (true, w) := by
  have hids' := nodup_blockIds_of_move hids h
  have hlength : w'.blocks.length = w.blocks.length := by
    have hperm := w.perm_move block.id target
    rw [h] at hperm
    exact hperm.length_eq
  obtain ⟨blocks, ids⟩ := w
  obtain rfl : blocks = _ := hblocks
  intro slot others place
  obtain ⟨hout, rfl⟩ := (move_eq_true_iff (notMem_of_nodup_segment hids) hscope rfl).1 h
  refine ⟨hout, rfl, ?_⟩
  obtain ⟨start', hback⟩ := (Relocates.of_outside (Nat.min_le_right ..) hout).undo
  refine hback.move_eq hids' hscope (Nat.min_eq_left ?_)
  -- Both slots touch the segment where it was.
  rw [hlength, List.length_append, List.length_append]
  split <;> omega

/-- A move relocates exactly one segment, and loses nothing. It takes place when the
block is no closer, has a closer if it is an opener, and the slot does not touch the
segment. Then the segment stands, as it was, among the other blocks at the place that
the slot denotes. Whenever that place is computed it is one of those among the other
blocks, whatever the target. Moving the block to the slot where it was brings back the
first sequence, and removing it leaves what is left without the move. -/
theorem move_relocates (hids : w.blockIds.Nodup) {start : Nat} {block : Block}
    (hblock : w.blocks[start]? = some block) (target : Nat) :
    let slot := min target w.blocks.length
    ((w.move block.id target).1 = true ↔ block.role ≠ .closer ∧
      ∃ segment, segmentAt? w.blocks start = some segment ∧
        ¬ (start ≤ slot ∧ slot ≤ start + segment.length)) ∧
    (∀ segment, block.role ≠ .closer → segmentAt? w.blocks start = some segment →
      let others := w.blocks.take start ++ w.blocks.drop (start + segment.length)
      let place := placeAmongOthers start segment.length slot
      w.blocks = w.blocks.take start ++ segment ++ w.blocks.drop (start + segment.length) ∧
      0 < segment.length ∧ start + segment.length ≤ w.blocks.length ∧
      (¬ (start < target ∧ target < start + segment.length) →
        0 ≤ place ∧ place ≤ others.length) ∧
      ∀ w', w.move block.id target = (true, w') →
        place = (if slot < start then (slot : Int) else slot - segment.length) ∧
        w' = { w with blocks := others.take place.toNat ++ segment ++ others.drop place.toNat } ∧
        w'.move block.id (if slot < start then start + segment.length else start) = (true, w)) ∧
    (w.edit (.move block.id target)).edit (.remove block.id) = w.edit (.remove block.id) := by
  obtain ⟨before, after, hblocks, rfl⟩ := exists_split_of_getElem? hblock
  intro slot
  have hid : block.id ∉ before.map Block.id := by
    rw [blockIds, hblocks] at hids
    exact notMem_of_nodup_split hids
  refine ⟨?_, ?_, edit_move_edit_remove hids block.id target⟩
  · have := fst_move_iff w.ids hid after target
    rwa [← hblocks] at this
  · intro segment hrole hat others place
    rw [hblocks, segmentAt?_split hrole, Option.map_eq_some_iff] at hat
    obtain ⟨⟨segment', rest⟩, hsegment, heq⟩ := hat
    obtain rfl : segment' = segment := heq
    obtain ⟨scope, rfl, rfl, hscope⟩ := exists_isSegment_of_segment? hsegment
    have hsplit : w.blocks = before ++ block :: scope ++ rest := by
      rw [hblocks, List.append_assoc, List.cons_append]
    have htake : w.blocks.take before.length = before := by
      rw [hblocks, List.take_left]
    have hdrop : w.blocks.drop (before.length + (block :: scope).length) = rest := by
      rw [hsplit, ← List.length_append, List.drop_left]
    have hlength : w.blocks.length = before.length + (block :: scope).length + rest.length := by
      rw [hsplit, List.length_append, List.length_append]
    have hwithin : before.length + (block :: scope).length ≤ w.blocks.length := by omega
    have hothers : others.length = w.blocks.length - (block :: scope).length := by
      simp only [others, htake, hdrop, List.length_append]
      omega
    refine ⟨by rw [htake, hdrop, ← hsplit], by simp, hwithin, fun hout => ?_, fun w' hmove => ?_⟩
    · have hplace : 0 ≤ place ∧ place ≤ w.blocks.length - (block :: scope).length :=
        placeAmongOthers_mem hwithin hout
      omega
    · obtain ⟨hout, hundo⟩ := move_undo hids hscope hsplit hmove
      refine ⟨placeAmongOthers_of_outside hout, ?_⟩
      simp only [others, place, htake, hdrop]
      exact hundo

/-- A loop in front of a closer that ends nothing, moved behind the end and to the
front, and not moved to the slot behind itself. -/
theorem move_relocates_stray_closer :
    let loop : Block := { tag := .known .loop, loopCount := some 3, id := "b" }
    let segment : List Block :=
      [loop, { tag := .known (.say .hello), id := "c" }, { tag := .known .close, id := "d" }]
    let first : Block := { tag := .known .move, id := "a" }
    let others : List Block :=
      [{ tag := .known .close, id := "e" }, { tag := .unknown "turn", id := "f" }]
    let w : Workspace := { blocks := first :: segment ++ others }
    let behind : Workspace := { blocks := first :: others ++ segment }
    let front : Workspace := { blocks := segment ++ first :: others }
    w.blockIds.Nodup ∧ w.blocks[1]? = some loop ∧ loop.role ≠ .closer ∧
      segmentAt? w.blocks 1 = some segment ∧
      w.move "b" 99 = (true, behind) ∧ behind.move "b" 1 = (true, w) ∧
      w.move "b" 0 = (true, front) ∧ front.move "b" 4 = (true, w) ∧
      w.move "b" 4 = (false, w) ∧ placeAmongOthers 1 3 6 = 3 ∧ placeAmongOthers 1 3 2 = -1 ∧
      (w.edit (.move "b" 99)).edit (.remove "b") = w.edit (.remove "b") := by
  intro loop segment first others w behind front
  have hids : w.blockIds.Nodup := by decide
  have hblock : w.blocks[1]? = some loop := rfl
  have hrole : loop.role ≠ .closer := by decide
  have hsegment : segmentAt? w.blocks 1 = some segment := rfl
  have hbehind : w.move "b" 99 = (true, behind) := rfl
  have hfront : w.move "b" 0 = (true, front) := rfl
  obtain ⟨-, hmove, hremove⟩ := move_relocates hids hblock 99
  obtain ⟨-, hmove', -⟩ := move_relocates hids hblock 0
  obtain ⟨hchanged, -, -⟩ := move_relocates hids hblock 4
  obtain ⟨-, -, -, -, hback⟩ := hmove segment hrole hsegment
  obtain ⟨-, -, -, -, hback'⟩ := hmove' segment hrole hsegment
  obtain ⟨hplace, -, hagain⟩ := hback behind hbehind
  obtain ⟨-, -, hagain'⟩ := hback' front hfront
  refine ⟨hids, hblock, hrole, hsegment, hbehind, hagain, hfront, hagain', ?_, hplace, rfl, hremove⟩
  refine (w.attempt_cases (e := .move "b" 4) nofun).resolve_right ?_
  rintro ⟨w', hmoved⟩
  obtain ⟨-, segment', ⟨⟩, hout⟩ := hchanged.1 (congrArg Prod.fst hmoved)
  exact hout (by decide)

end Workspace

end Blockwise
