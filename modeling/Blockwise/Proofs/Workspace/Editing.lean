import Blockwise.Proofs.Program.Reading
import Blockwise.Proofs.Workspace.Scope

/-!
# Editing sessions

What each edit makes of a sequence, as an equation between lists. An insertion,
a move and a removal put in or take out a balanced part, and the other two edits
change no tag; so a sequence that nests goes on to nest through a whole session
of edits.
-/

namespace Blockwise

theorem roles_number (ids : IdSupply) (instructions : List Instruction) :
    roles (ids.number instructions) = instructions.map Instruction.role := by
  calc
    roles (ids.number instructions) =
        ((ids.number instructions).map Block.toInstruction).map Instruction.role := by
      rw [List.map_map]
      rfl
    _ = instructions.map Instruction.role := by rw [IdSupply.map_toInstruction_number]

/-- An edit that does not insert a closer by itself. -/
def Edit.InsertsNoCloser (e : Edit) : Prop :=
  ∀ index, e ≠ .insert index .close

namespace Workspace

/-! ## What an edit does -/

/-- A move that reports no change leaves the workspace as it is. Any other takes a
segment out of the sequence and puts it in again, as it is. -/
theorem move_cases (w : Workspace) (id : BlockId) (target : Nat) :
    w.move id target = (false, w) ∨
    ∃ before segment after p q, w.blocks = before ++ segment ++ after ∧
      Balanced (roles segment) ∧ before ++ after = p ++ q ∧
      w.move id target = (true, { w with blocks := p ++ segment ++ q }) := by
  unfold move
  cases hsplit : splitAt? id w.blocks with
  | none => exact .inl rfl
  | some s =>
    obtain ⟨before, block, behind⟩ := s
    obtain ⟨hblocks, -⟩ := append_of_splitAt? hsplit
    dsimp only
    cases hsegment : segment? block behind with
    | none => exact .inl rfl
    | some t =>
      obtain ⟨segment, after⟩ := t
      dsimp only
      split
      · exact .inl rfl
      · split
        · exact .inl rfl
        · refine .inr ⟨before, segment, after, _, _, ?_, balanced_of_segment? hsegment,
            (List.take_append_drop _ _).symm, rfl⟩
          rw [List.append_assoc, append_of_segment? hsegment, hblocks]

/-- A removal takes a block that is no closer out of the sequence, and what moves
along with it. -/
theorem remove_cases (w : Workspace) (id : BlockId) :
    w.remove id = (false, w) ∨
    ∃ before block after, w.blocks = before ++ block :: after ∧ block.role ≠ .closer ∧
      w.remove id = (true,
        { w with blocks := before ++ ((segment? block after).map Prod.snd).getD after }) := by
  unfold remove
  cases hsplit : splitAt? id w.blocks with
  | none => exact .inl rfl
  | some s =>
    obtain ⟨before, block, after⟩ := s
    obtain ⟨hblocks, -⟩ := append_of_splitAt? hsplit
    dsimp only
    split
    · exact .inl rfl
    · next hcloser =>
      refine .inr ⟨before, block, after, hblocks.symm, fun hrole => hcloser ?_, rfl⟩
      unfold Instruction.role at hrole
      rw [Tag.isCloser, hrole]
      rfl

/-- An update replaces one block of the given kind by what it is changed to. -/
theorem update_cases (w : Workspace) (id : BlockId) (kind : Kind) (done : Block → Bool)
    (change : Block → Block) :
    w.update id kind done change = (false, w) ∨
    ∃ before block after, w.blocks = before ++ block :: after ∧ block.id = id ∧
      block.tag = .known kind ∧ ¬ done block ∧
      w.update id kind done change =
        (true, { w with blocks := before ++ change block :: after }) := by
  unfold update
  cases hsplit : splitAt? id w.blocks with
  | none => exact .inl rfl
  | some s =>
    obtain ⟨before, block, after⟩ := s
    obtain ⟨hblocks, hid⟩ := append_of_splitAt? hsplit
    dsimp only
    split
    · next h => exact .inr ⟨before, block, after, hblocks.symm, hid, h.1, h.2, rfl⟩
    · exact .inl rfl

/-- Setting a count changes the count of one loop and nothing else. -/
theorem setLoopCount_cases (w : Workspace) (id : BlockId) (text : String) :
    w.setLoopCount id text = (false, w) ∨
    ∃ before block after count, w.blocks = before ++ block :: after ∧
      w.setLoopCount id text = (true,
        { w with blocks := before ++ { block with loopCount := some count } :: after }) := by
  unfold setLoopCount
  dsimp only
  split
  · exact .inl rfl
  · exact (update_cases ..).imp_right fun ⟨before, block, after, hblocks, _, _, _, hupdate⟩ =>
      ⟨before, block, after, _, hblocks, hupdate⟩

/-- Choosing a condition changes the condition of one branch and nothing else. -/
theorem setCondition_cases (w : Workspace) (id : BlockId) (kind : Kind) :
    w.setCondition id kind = (false, w) ∨
    ∃ before block after, w.blocks = before ++ block :: after ∧ kind.isCondition ∧
      w.setCondition id kind = (true,
        { w with
          blocks := before ++ { block with condition := some (.known kind) } :: after }) := by
  unfold setCondition
  split
  · next hkind =>
    exact (update_cases ..).imp_right fun ⟨before, block, after, hblocks, _, _, _, hupdate⟩ =>
      ⟨before, block, after, hblocks, hkind, hupdate⟩
  · exact .inl rfl

/-- An edit other than an insertion has a new sequence and reports it, or it leaves
the workspace as it was. The supply is the same in both cases. -/
theorem attempt_cases (w : Workspace) {e : Edit} (he : ∀ index kind, e ≠ .insert index kind) :
    w.attempt e = (false, w) ∨ ∃ blocks, w.attempt e = (true, { w with blocks }) := by
  cases e with
  | insert index kind => exact absurd rfl (he index kind)
  | move id target =>
    exact (move_cases w id target).imp_right fun ⟨_, _, _, _, _, _, _, _, h⟩ => ⟨_, h⟩
  | remove id => exact (remove_cases w id).imp_right fun ⟨_, _, _, _, _, h⟩ => ⟨_, h⟩
  | setLoopCount id text =>
    exact (setLoopCount_cases w id text).imp_right fun ⟨_, _, _, _, _, h⟩ => ⟨_, h⟩
  | setCondition id kind =>
    exact (setCondition_cases w id kind).imp_right fun ⟨_, _, _, _, _, h⟩ => ⟨_, h⟩

theorem perm_move (w : Workspace) (id : BlockId) (target : Nat) :
    (w.move id target).2.blocks.Perm w.blocks := by
  rcases w.move_cases id target with
    hkept | ⟨before, segment, after, p, q, hblocks, -, hrest, hmove⟩
  · rw [hkept]
  · rw [hmove, hblocks]
    -- On both sides the segment can be brought to the front of the same blocks.
    have hfront (x y : List Block) : (x ++ segment ++ y).Perm (segment ++ (x ++ y)) := by
      rw [← List.append_assoc]
      exact List.perm_append_comm.append_right y
    refine (hfront p q).trans ?_
    rw [← hrest]
    exact (hfront before after).symm

theorem sublist_remove (w : Workspace) (id : BlockId) :
    (w.remove id).2.blocks.Sublist w.blocks := by
  rcases w.remove_cases id with hkept | ⟨before, block, after, hblocks, -, hremove⟩
  · simp [hkept]
  · rw [hremove, hblocks]
    refine List.Sublist.append_left ?_ before
    cases hsegment : segment? block after with
    | none => exact List.sublist_cons_self block after
    | some s =>
      rw [← append_of_segment? hsegment]
      exact List.sublist_append_right s.1 s.2

/-- What can be told of blocks without their counts is not changed by setting one. -/
theorem map_setLoopCount {α : Type} {f : Block → α}
    (hf : ∀ block count, f { block with loopCount := count } = f block) (w : Workspace)
    (id : BlockId) (text : String) :
    (w.setLoopCount id text).2.blocks.map f = w.blocks.map f := by
  rcases w.setLoopCount_cases id text with hkept | ⟨before, block, after, count, hblocks, hset⟩
  · rw [hkept]
  · rw [hset, hblocks, List.map_append, List.map_append, List.map_cons, List.map_cons, hf]

theorem map_setCondition {α : Type} {f : Block → α}
    (hf : ∀ block condition, f { block with condition := condition } = f block) (w : Workspace)
    (id : BlockId) (kind : Kind) :
    (w.setCondition id kind).2.blocks.map f = w.blocks.map f := by
  rcases w.setCondition_cases id kind with hkept | ⟨before, block, after, hblocks, -, hset⟩
  · rw [hkept]
  · rw [hset, hblocks, List.map_append, List.map_append, List.map_cons, List.map_cons, hf]

/-! ## Edits keep the balance -/

/-- What is inserted for a kind other than the closer is balanced: an opener comes
with its closer. -/
theorem balanced_insertion {kind : Kind} (h : kind ≠ .close) :
    Balanced ((insertion kind).map Instruction.role) := by
  rw [balanced_iff_level?]
  cases kind with
  | close => exact absurd rfl h
  | _ => rfl

section

variable {w : Workspace} (h : Balanced (roles w.blocks))
include h

theorem balanced_insert (index : Nat) {kind : Kind} (hkind : kind ≠ .close) :
    Balanced (roles (w.insert index kind).2.blocks) := by
  have hnew : Balanced (roles (w.ids.number (insertion kind))) := by
    rw [roles_number]
    exact balanced_insertion hkind
  unfold insert
  rw [roles_append, roles_append, hnew.insert_iff, ← roles_append, List.take_append_drop]
  exact h

theorem balanced_move (id : BlockId) (target : Nat) :
    Balanced (roles (w.move id target).2.blocks) := by
  rcases w.move_cases id target with
    hkept | ⟨before, segment, after, p, q, hblocks, hsegment, hrest, hmove⟩
  · rw [hkept]
    exact h
  · -- Without the segment, which is balanced, the two sequences are the same.
    rw [hblocks, roles_append, roles_append, hsegment.insert_iff, ← roles_append, hrest] at h
    rw [hmove, roles_append, roles_append, hsegment.insert_iff, ← roles_append]
    exact h

theorem balanced_remove (id : BlockId) : Balanced (roles (w.remove id).2.blocks) := by
  rcases w.remove_cases id with hkept | ⟨before, block, after, hblocks, hcloser, hremove⟩
  · rw [hkept]
    exact h
  · rw [hblocks] at h
    rw [hremove]
    cases hsegment : segment? block after with
    | none => exact absurd hsegment (segment?_ne_none h hcloser)
    | some s =>
      obtain ⟨segment, rest⟩ := s
      rw [← append_of_segment? hsegment, ← List.append_assoc, roles_append, roles_append,
        (balanced_of_segment? hsegment).insert_iff, ← roles_append] at h
      exact h

/-- An edit keeps a sequence balanced, whether or not it changes it. -/
theorem balanced_edit {e : Edit} (he : e.InsertsNoCloser) :
    Balanced (roles (w.edit e).blocks) := by
  unfold edit
  cases e with
  | insert index kind => exact balanced_insert h index fun hkind => he index (by rw [hkind])
  | move id target => exact balanced_move h id target
  | remove id => exact balanced_remove h id
  | setLoopCount id text =>
    have hroles : roles (w.setLoopCount id text).2.blocks = roles w.blocks :=
      map_setLoopCount (fun _ _ => rfl) w id text
    rw [attempt, hroles]
    exact h
  | setCondition id kind =>
    have hroles : roles (w.setCondition id kind).2.blocks = roles w.blocks :=
      map_setCondition (fun _ _ => rfl) w id kind
    rw [attempt, hroles]
    exact h

end

/-! ## Sessions -/

/-- The workspaces of an editing session, from the first to the last. -/
def stages (w : Workspace) : List Edit → List Workspace
  | [] => [w]
  | e :: rest => w :: (w.edit e).stages rest

/-- What the first workspace has and every edit keeps, all workspaces of a session
have. -/
theorem forall_mem_stages {P : Workspace → Prop} {Q : Edit → Prop}
    (hedit : ∀ w e, P w → Q e → P (w.edit e)) {w : Workspace} (hw : P w)
    {edits : List Edit} (hedits : ∀ e ∈ edits, Q e) : ∀ v ∈ w.stages edits, P v := by
  induction edits generalizing w with
  | nil =>
    intro v hv
    rw [stages, List.mem_singleton] at hv
    exact hv ▸ hw
  | cons e rest ih =>
    obtain ⟨he, hrest⟩ := List.forall_mem_cons.1 hedits
    intro v hv
    rw [stages] at hv
    rcases List.mem_cons.1 hv with rfl | hv
    · exact hw
    · exact ih (hedit w e hw he) hrest v hv

/-- Editing keeps the balance: if a sequence can be read as a program, so can it
after every edit of a session, as long as no closer is inserted by itself. -/
theorem nests_of_mem_stages (w : Workspace) (hw : Nests w.blocks) (edits : List Edit)
    (hedits : ∀ e ∈ edits, e.InsertsNoCloser) : ∀ v ∈ w.stages edits, Nests v.blocks := by
  intro v hv
  rw [nests_iff_balanced] at hw ⊢
  exact forall_mem_stages (P := fun v => Balanced (roles v.blocks))
    (fun v e hv he => balanced_edit hv he) hw hedits v hv

/-- A session on a loop and a branch in which every kind of edit takes place. -/
theorem nests_of_mem_stages_loop_branch :
    let w : Workspace :=
      { blocks :=
          [{ tag := .known .loop, id := "a" }, { tag := .known .branch, id := "b" },
            { tag := .known .close, id := "c" }, { tag := .known .close, id := "d" },
            { tag := .unknown "turn", id := "a" }] }
    let edits : List Edit :=
      [.insert 2 .loop, .move "b" 0, .setLoopCount "a" "12", .setCondition "b" .goalReached,
        .move "a" 9, .remove "b"]
    Nests w.blocks ∧ (∀ e ∈ edits, e.InsertsNoCloser) ∧ ∀ v ∈ w.stages edits, Nests v.blocks := by
  intro w edits
  have hw : Nests w.blocks := ⟨_, rfl⟩
  have hedits : ∀ e ∈ edits, e.InsertsNoCloser := by
    rintro e he index rfl
    simp [edits] at he
  exact ⟨hw, hedits, nests_of_mem_stages w hw edits hedits⟩

end Workspace

end Blockwise
