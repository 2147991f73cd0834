import Mathlib.Algebra.GroupWithZero.Nat
import Mathlib.Data.List.Nodup
import Mathlib.Data.List.Perm.Subperm
import Blockwise.Workspace.Hydration
import Blockwise.Proofs.Workspace.Editing

/-!
# The identities of blocks

A supply numbers its identities consecutively, and no two numbers are written
alike. Its counter is a 64-bit word, so the next identities of a supply
(`IdSupply.upcoming`) are all different as long as there are at most `2 ^ 64` of
them; and as long as the counter does not come to its end, none of them was
issued before (`IdSupply.upcoming_eq`).

Every edit brings in as many new identities as it takes from the supply
(`Workspace.subperm_blockIds_edit`). Hence through a whole session the blocks of a
workspace have some of the identities that were taken from the supply since the
session has begun, and none of them twice (`Workspace.DrawsFrom`). What is taken
later is new to all that was there before, and also to what has been removed
since.
-/

namespace Blockwise

/-! ## The supply -/

namespace IdSupply

theorem nth_injective : Function.Injective nth := by
  intro m n h
  have hrepr : m.repr = n.repr := (String.append_right_inj "block-").1 h
  have hdigits : Nat.toDigits 10 m = Nat.toDigits 10 n := by
    rw [← Nat.toList_repr, hrepr, Nat.toList_repr]
  -- A number is read back from its digits.
  rw [← @Nat.ofDigitChars_ten_toDigits m, hdigits, Nat.ofDigitChars_ten_toDigits]

@[simp] theorem skip_zero (ids : IdSupply) : ids.skip 0 = ids :=
  congrArg mk ids.issued.add_zero

theorem skip_skip (ids : IdSupply) (m n : Nat) : (ids.skip m).skip n = ids.skip (m + n) := by
  simp only [skip, UInt64.ofNat_add, UInt64.add_assoc]

/-- The identity behind the next `k`, counted around the end of a word. -/
theorem next_skip (ids : IdSupply) (k : Nat) :
    (ids.skip k).next = nth ((ids.issued.toNat + 1 + k) % 2 ^ 64) := by
  have hnumber : (ids.issued + .ofNat k + 1).toNat = (ids.issued.toNat + 1 + k) % 2 ^ 64 := by
    rw [UInt64.toNat_add, UInt64.toNat_add, UInt64.toNat_ofNat', UInt64.toNat_one]
    omega
  rw [next, skip, hnumber]

theorem next_skip_of_lt {ids : IdSupply} {k : Nat} (h : ids.issued.toNat + 1 + k < 2 ^ 64) :
    (ids.skip k).next = nth (ids.issued.toNat + 1 + k) := by
  rw [next_skip, Nat.mod_eq_of_lt h]

/-- The next `n` identities of a supply, in order. -/
def upcoming (ids : IdSupply) (n : Nat) : List BlockId :=
  (List.range n).map fun k => (ids.skip k).next

@[simp] theorem upcoming_zero (ids : IdSupply) : ids.upcoming 0 = [] := rfl

theorem upcoming_one (ids : IdSupply) : ids.upcoming 1 = [ids.next] :=
  congrArg (fun rest : IdSupply => [rest.next]) ids.skip_zero

theorem upcoming_add (ids : IdSupply) (m n : Nat) :
    ids.upcoming (m + n) = ids.upcoming m ++ (ids.skip m).upcoming n := by
  simp only [upcoming, List.range_add, List.map_append, List.map_map, skip_skip]
  rfl

theorem upcoming_succ (ids : IdSupply) (n : Nat) :
    ids.upcoming (n + 1) = ids.next :: (ids.skip 1).upcoming n := by
  rw [Nat.add_comm, upcoming_add, upcoming_one, List.singleton_append]

theorem nodup_upcoming (ids : IdSupply) {n : Nat} (hn : n ≤ 2 ^ 64) : (ids.upcoming n).Nodup := by
  refine List.Nodup.map_on (fun k hk k' hk' heq => ?_) List.nodup_range
  rw [List.mem_range] at hk hk'
  rw [next_skip, next_skip] at heq
  have := nth_injective heq
  omega

/-- As long as the counter does not come to its end, the next identities are those
with the next numbers. -/
theorem upcoming_eq {ids : IdSupply} {n : Nat} (h : ids.issued.toNat + n < 2 ^ 64) :
    ids.upcoming n = (List.range' (ids.issued.toNat + 1) n).map nth := by
  rw [upcoming, List.range'_eq_map_range, List.map_map]
  refine List.map_congr_left fun k hk => next_skip_of_lt ?_
  have := List.mem_range.1 hk
  omega

theorem nth_mem_upcoming {ids : IdSupply} {k n : Nat} (h : ids.issued.toNat + n < 2 ^ 64) :
    nth k ∈ ids.upcoming n ↔ ids.issued.toNat < k ∧ k ≤ ids.issued.toNat + n := by
  rw [upcoming_eq h, List.mem_map_of_injective nth_injective, List.mem_range'_1]
  omega

theorem map_id_number (ids : IdSupply) (instructions : List Instruction) :
    (ids.number instructions).map Block.id = ids.upcoming instructions.length := by
  induction instructions generalizing ids with
  | nil => rfl
  | cons instruction rest ih =>
    rw [number_cons, List.map_cons, ih, List.length_cons, upcoming_succ]

end IdSupply

/-! ## Edits -/

/-- How many identities an edit takes from the supply. -/
def Edit.issued : Edit → Nat
  | .insert _ kind => (Workspace.insertion kind).length
  | .move .. | .remove _ | .setLoopCount .. | .setCondition .. => 0

namespace Workspace

/-- The identities of the blocks of a workspace. -/
def blockIds (w : Workspace) : List BlockId := w.blocks.map Block.id

/-- An insertion adds identities that are taken from the supply. -/
theorem perm_blockIds_insert (w : Workspace) (index : Nat) (kind : Kind) :
    (w.insert index kind).2.blockIds.Perm
      (w.blockIds ++ w.ids.upcoming (insertion kind).length) := by
  unfold insert blockIds
  rw [List.map_append, List.map_append, IdSupply.map_id_number, List.append_assoc]
  refine (List.perm_append_comm.append_left _).trans ?_
  rw [← List.append_assoc, ← List.map_append, List.take_append_drop]

theorem fst_insert_mem (w : Workspace) (index : Nat) (kind : Kind) :
    (w.insert index kind).1 ∈ (w.insert index kind).2.blockIds := by
  rw [(perm_blockIds_insert w index kind).mem_iff, insertion, List.length_cons,
    IdSupply.upcoming_succ]
  exact List.mem_append_right _ List.mem_cons_self

theorem ids_edit_of_ne_insert (w : Workspace) {e : Edit}
    (he : ∀ index kind, e ≠ .insert index kind) : (w.edit e).ids = w.ids := by
  rw [edit]
  rcases w.attempt_cases he with h | ⟨blocks, h⟩ <;> rw [h]

theorem ids_edit (w : Workspace) (e : Edit) : (w.edit e).ids = w.ids.skip e.issued := by
  cases e with
  | insert index kind =>
    change w.ids.skip (w.ids.number (insertion kind)).length = _
    rw [IdSupply.length_number]
    rfl
  | move | remove | setLoopCount | setCondition =>
    rw [Edit.issued, IdSupply.skip_zero]
    exact w.ids_edit_of_ne_insert nofun

/-- After an edit, the blocks have some of the identities that were there before
or have been newly taken from the supply, and each of them at most as often. -/
theorem subperm_blockIds_edit (w : Workspace) (e : Edit) :
    (w.edit e).blockIds.Subperm (w.blockIds ++ w.ids.upcoming e.issued) := by
  cases e with
  | insert index kind => exact (perm_blockIds_insert w index kind).subperm
  | move id target =>
    rw [Edit.issued, IdSupply.upcoming_zero, List.append_nil]
    exact ((w.perm_move id target).map Block.id).subperm
  | remove id =>
    rw [Edit.issued, IdSupply.upcoming_zero, List.append_nil]
    exact ((w.sublist_remove id).map Block.id).subperm
  | setLoopCount id text =>
    rw [Edit.issued, IdSupply.upcoming_zero, List.append_nil]
    exact (List.Perm.of_eq (map_setLoopCount (fun _ _ => rfl) w id text)).subperm
  | setCondition id kind =>
    rw [Edit.issued, IdSupply.upcoming_zero, List.append_nil]
    exact (List.Perm.of_eq (map_setCondition (fun _ _ => rfl) w id kind)).subperm

/-! ## Sessions -/

/-- The blocks of a workspace have some of the next `n` identities of a supply,
each at most once, and those `n` are no longer in the supply of the workspace. -/
structure DrawsFrom (ids : IdSupply) (n : Nat) (w : Workspace) : Prop where
  ids_eq : w.ids = ids.skip n
  subperm : w.blockIds.Subperm (ids.upcoming n)

namespace DrawsFrom

variable {ids : IdSupply} {m n : Nat} {w : Workspace}

theorem nodup (h : w.DrawsFrom ids n) (hn : n ≤ 2 ^ 64) : w.blockIds.Nodup := by
  obtain ⟨l, hperm, hsublist⟩ := h.subperm
  exact hperm.nodup_iff.1 ((ids.nodup_upcoming hn).sublist hsublist)

theorem nth_notMem (h : w.DrawsFrom ids n) (hn : ids.issued.toNat + n < 2 ^ 64) {k : Nat}
    (hk : k ≤ ids.issued.toNat) : IdSupply.nth k ∉ w.blockIds := by
  intro hmem
  have := (IdSupply.nth_mem_upcoming hn).1 (h.subperm.subset hmem)
  omega

/-- What a supply issues later is new. -/
theorem next_skip_notMem (h : w.DrawsFrom ids n) (hn : n ≤ m)
    (hm : ids.issued.toNat + 1 + m < 2 ^ 64) : (ids.skip m).next ∉ w.blockIds := by
  rw [IdSupply.next_skip_of_lt hm]
  intro hmem
  have := (IdSupply.nth_mem_upcoming (by omega)).1 (h.subperm.subset hmem)
  omega

theorem edit (h : w.DrawsFrom ids n) (e : Edit) : (w.edit e).DrawsFrom ids (n + e.issued) where
  ids_eq := by rw [ids_edit, h.ids_eq, IdSupply.skip_skip]
  subperm := by
    have hsubperm := subperm_blockIds_edit w e
    rw [h.ids_eq] at hsubperm
    rw [IdSupply.upcoming_add]
    exact hsubperm.trans (h.subperm.append (.refl _))

/-- The whole session draws from one supply, and never from behind the place
that it has reached at the end. -/
theorem session (h : w.DrawsFrom ids n) (edits : List Edit) :
    (edits.foldl Workspace.edit w).DrawsFrom ids (n + (edits.map Edit.issued).sum) ∧
      ∀ v ∈ w.stages edits, ∃ k ≤ n + (edits.map Edit.issued).sum, v.DrawsFrom ids k := by
  induction edits generalizing w n with
  | nil =>
    refine ⟨h, fun v hv => ?_⟩
    rw [stages, List.mem_singleton] at hv
    exact ⟨n, Nat.le_refl n, hv ▸ h⟩
  | cons e rest ih =>
    have hsession := ih (h.edit e)
    rw [List.map_cons, List.sum_cons, ← Nat.add_assoc]
    refine ⟨hsession.1, fun v hv => ?_⟩
    rw [stages] at hv
    rcases List.mem_cons.1 hv with rfl | hv
    · exact ⟨n, by omega, h⟩
    · exact hsession.2 v hv

end DrawsFrom

end Workspace

/-! ## Hydration -/

namespace Hydration

/-- The blocks of a result got all their identities from a supply, in whatever
order, and the result has what is left of it. -/
structure Numbered (ids : IdSupply) (result : List Block × IdSupply) : Prop where
  rest_eq : result.2 = ids.skip result.1.length
  perm : (result.1.map Block.id).Perm (ids.upcoming result.1.length)

theorem numbered_blocks (ids : IdSupply) (raw : Json) : Numbered ids (blocks ids raw) := by
  unfold blocks
  constructor
  · rw [IdSupply.length_number]
  · rw [IdSupply.length_number, IdSupply.map_id_number]

/-- A start block is numbered last, although it is placed first. -/
theorem Numbered.ensureStart {ids : IdSupply} {result : List Block × IdSupply}
    (h : Numbered ids result) : Numbered ids (ensureStart result.2 result.1) := by
  unfold Hydration.ensureStart
  split
  · exact h
  · constructor
    · rw [h.rest_eq, IdSupply.skip_skip, List.length_cons]
    · rw [List.map_cons, List.length_cons, IdSupply.upcoming_add, IdSupply.upcoming_one, h.rest_eq]
      exact (h.perm.cons _).trans (List.perm_append_singleton _ _).symm

theorem numbered_hydrate (ids : IdSupply) (payload : Json) : Numbered ids (hydrate ids payload) :=
  (numbered_blocks ids (entries payload)).ensureStart

end Hydration

/-! ## Whole sessions -/

namespace Workspace

/-- The workspaces with which a session on a supply begins: an empty one, or the
sequence of a payload with what it has left of the supply. -/
inductive BeginsWith (ids : IdSupply) : Workspace → Prop where
  | empty : BeginsWith ids { blocks := [], ids }
  | hydrated (payload : Json) :
    BeginsWith ids
      { blocks := (Hydration.hydrate ids payload).1
        ids := (Hydration.hydrate ids payload).2 }

theorem BeginsWith.drawsFrom {ids : IdSupply} {w : Workspace} (h : w.BeginsWith ids) :
    w.DrawsFrom ids w.blocks.length := by
  cases h with
  | empty => exact ⟨ids.skip_zero.symm, .refl _⟩
  | hydrated payload =>
    have hnumbered := Hydration.numbered_hydrate ids payload
    exact ⟨hnumbered.rest_eq, hnumbered.perm.subperm⟩

/-- Through a whole session no two blocks have the same identity, and none has
one that was issued before, as long as no more identities are issued than a word
can count. What an insertion then gives to its block was on no block of the
session, not even on one that has been removed. A hydrated sequence has exactly
the identities with the next numbers. -/
theorem blockIds_of_session (ids : IdSupply) :
    (∀ w : Workspace, w.BeginsWith ids → ∀ edits : List Edit,
      let issued := ids.issued.toNat + w.blocks.length + (edits.map Edit.issued).sum
      (issued < 2 ^ 64 → ∀ v ∈ w.stages edits,
        v.blockIds.Nodup ∧ ∀ k ≤ ids.issued.toNat, IdSupply.nth k ∉ v.blockIds) ∧
      ∀ index kind, issued + (Edit.insert index kind).issued < 2 ^ 64 →
        let inserted := (edits.foldl Workspace.edit w).insert index kind
        inserted.1 ∈ inserted.2.blockIds ∧ ∀ v ∈ w.stages edits, inserted.1 ∉ v.blockIds) ∧
    ∀ payload : Json,
      let found := (Hydration.hydrate ids payload).1
      ids.issued.toNat + found.length < 2 ^ 64 →
        (found.map Block.id).Perm
          ((List.range' (ids.issued.toNat + 1) found.length).map IdSupply.nth) := by
  constructor
  · intro w hw edits issued
    obtain ⟨hlast, hstages⟩ := hw.drawsFrom.session edits
    constructor
    · intro hissued v hv
      obtain ⟨k, hk, hv⟩ := hstages v hv
      exact ⟨hv.nodup (by omega), fun _ => hv.nth_notMem (by omega)⟩
    · intro index kind hissued inserted
      have hpos : 0 < (Edit.insert index kind).issued := Nat.succ_pos _
      refine ⟨fst_insert_mem _ index kind, fun v hv => ?_⟩
      obtain ⟨k, hk, hv⟩ := hstages v hv
      have hnext := congrArg IdSupply.next hlast.ids_eq
      change (edits.foldl Workspace.edit w).ids.next ∉ _
      rw [hnext]
      exact hv.next_skip_notMem hk (by omega)
  · intro payload found hfound
    rw [← IdSupply.upcoming_eq hfound]
    exact (Hydration.numbered_hydrate ids payload).perm

/-- A generated loop is removed with its closer, and a closer is inserted that
ends nothing. -/
theorem blockIds_of_session_generated_loop :
    let ids : IdSupply := ⟨7⟩
    let payload : Json := .arr [.obj [("type", .str "control_for_loop")]]
    let w : Workspace :=
      { blocks := (Hydration.hydrate ids payload).1, ids := (Hydration.hydrate ids payload).2 }
    let edits : List Edit :=
      [.insert 9 .branch, .insert 0 .close, .remove "block-8", .move "block-11" 0]
    let last := edits.foldl Workspace.edit w
    w.BeginsWith ids ∧ w.blockIds = ["block-10", "block-8", "block-9"] ∧
      w.blockIds.Perm ["block-8", "block-9", "block-10"] ∧
      7 + w.blocks.length + (edits.map Edit.issued).sum = 13 ∧
      last.blockIds = ["block-11", "block-12", "block-13", "block-10"] ∧
      (last.insert 2 .loop).1 = "block-14" ∧
      "block-14" ∈ (last.insert 2 .loop).2.blockIds ∧
      ∀ v ∈ w.stages edits,
        v.blockIds.Nodup ∧ "block-7" ∉ v.blockIds ∧ "block-14" ∉ v.blockIds := by
  intro ids payload w edits last
  have hw : w.BeginsWith ids := .hydrated payload
  have hissued : 7 + w.blocks.length + (edits.map Edit.issued).sum = 13 := by decide
  have hnumbers : (List.range' 8 w.blocks.length).map IdSupply.nth =
      ["block-8", "block-9", "block-10"] := by
    decide
  have hnew : (last.insert 2 .loop).1 = "block-14" := by decide
  obtain ⟨hsession, hhydrated⟩ := blockIds_of_session ids
  obtain ⟨hstages, hinsert⟩ := hsession w hw edits
  obtain ⟨hmem, hfresh⟩ := hinsert 2 .loop (by decide)
  refine ⟨hw, by decide, hnumbers ▸ hhydrated payload (by decide), hissued, by decide, hnew, hnew ▸ hmem,
    fun v hv => ?_⟩
  obtain ⟨hnodup, hold⟩ := hstages (by decide) v hv
  exact ⟨hnodup, hold 7 (Nat.le_refl 7), hnew ▸ hfresh v hv⟩

end Workspace

end Blockwise
