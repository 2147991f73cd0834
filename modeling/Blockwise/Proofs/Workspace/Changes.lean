import Blockwise.Proofs.Workspace.Relocation

/-!
# What an edit changes

An edit other than an insertion reports whether it changed anything. Here it is shown
that the report is true: if it tells of a change, the sequence is another one afterwards
(`Workspace.blocks_ne_of_attempt`), and if not, the workspace is as it was
(`Workspace.attempt_cases`); and the supply is never touched. Setting a count and choosing
a condition change one field of one block, and `setLoopCount_eq_true_iff` and
`setCondition_eq_true_iff` tell when they do.
-/

namespace Blockwise

/-- The count that a text in the field of a loop stands for. -/
def LoopCount.entered (text : String) : Nat :=
  normalize (ofText? (Text.trim text.toList))

/-- A sequence whose blocks have different identities is another one when a part of it
stands at another place. -/
theorem Relocates.blocks_ne {block : Block} {scope blocks blocks' : List Block} {start slot : Nat}
    (h : Relocates (block :: scope) start slot blocks blocks')
    (hids : (blocks.map Block.id).Nodup) : blocks' ≠ blocks := by
  -- If both were the same, the part and what it is taken over would begin with one block.
  have hne {p passed q : List Block} (ne_nil : passed ≠ [])
      (hids : ((p ++ passed ++ block :: scope ++ q).map Block.id).Nodup) :
      p ++ passed ++ block :: scope ++ q ≠ p ++ block :: scope ++ passed ++ q := by
    intro heq
    have hswap := List.append_cancel_right heq
    rw [List.append_assoc, List.append_assoc] at hswap
    obtain ⟨first, others, rfl⟩ := List.exists_cons_of_ne_nil ne_nil
    obtain ⟨rfl, -⟩ := List.cons_eq_cons.1 (List.append_cancel_left hswap)
    exact notMem_of_nodup_segment hids (by simp)
  intro heq
  cases h with
  | backward p passed q ne_nil => exact hne ne_nil hids heq.symm
  | forward p passed q ne_nil => exact hne ne_nil (heq ▸ hids) heq

namespace Workspace

variable {w w' : Workspace} {id : BlockId}

/-! ## Moves and removals -/

theorem blocks_ne_of_move (hids : w.blockIds.Nodup) {target : Nat}
    (h : w.move id target = (true, w')) : w'.blocks ≠ w.blocks := by
  obtain ⟨start, block, scope, -, -, -, -, hrelocates, -⟩ := exists_relocates_of_move hids h
  exact hrelocates.blocks_ne hids

theorem blocks_ne_of_remove (h : w.remove id = (true, w')) : w'.blocks ≠ w.blocks := by
  rcases w.remove_cases id with hkept | ⟨before, block, after, hblocks, -, hremove⟩
  · rw [hkept] at h
    cases h
  · rw [hremove] at h
    cases h
    intro heq
    have hlength := congrArg List.length heq
    rw [hblocks] at hlength
    cases hsegment : segment? block after with
    | none => simp [hsegment] at hlength
    | some s =>
      obtain ⟨scope, -, rfl, -⟩ := exists_isSegment_of_segment? hsegment
      simp [hsegment] at hlength
      omega

/-! ## Updates -/

/-- An update replaces the block with an identity, if it is of the kind and there is
something to change. -/
theorem update_eq_true_iff (hids : w.blockIds.Nodup) {kind : Kind} {done : Block → Bool}
    {change : Block → Block} :
    w.update id kind done change = (true, w') ↔
      ∃ before block after, w.blocks = before ++ block :: after ∧ block.id = id ∧
        block.tag = .known kind ∧ ¬ done block ∧
        w' = { w with blocks := before ++ change block :: after } := by
  constructor
  · intro h
    rcases w.update_cases id kind done change with
      hkept | ⟨before, block, after, hblocks, hid, htag, hdone, hupdate⟩
    · rw [hkept] at h
      cases h
    · rw [hupdate] at h
      exact ⟨before, block, after, hblocks, hid, htag, hdone, (congrArg Prod.snd h).symm⟩
  · rintro ⟨before, block, after, hblocks, rfl, htag, hdone, rfl⟩
    rw [blockIds, hblocks] at hids
    rw [update, hblocks, splitAt?_append (notMem_of_nodup_split hids)]
    exact if_pos ⟨htag, hdone⟩

/-- The count of a loop is set when there is a text in its field and the count that the
text stands for is another one than the stored one. -/
theorem setLoopCount_eq_true_iff (hids : w.blockIds.Nodup) {text : String} :
    w.setLoopCount id text = (true, w') ↔ Text.trim text.toList ≠ [] ∧
      ∃ before block after, w.blocks = before ++ block :: after ∧ block.id = id ∧
        block.tag = .known .loop ∧ block.loopCount ≠ some (.ofNat (LoopCount.entered text)) ∧
        w' = { w with
          blocks := before ++
            { block with loopCount := some (.ofNat (LoopCount.entered text)) } :: after } := by
  by_cases htext : Text.trim text.toList = []
  · simp [setLoopCount, htext]
  · have hset : w.setLoopCount id text =
        w.update id .loop (fun block => block.loopCount = some (.ofNat (LoopCount.entered text)))
          fun block => { block with loopCount := some (.ofNat (LoopCount.entered text)) } := by
      rw [setLoopCount, if_neg (by rwa [List.isEmpty_iff])]
      rfl
    rw [hset, update_eq_true_iff hids]
    simp only [decide_eq_true_eq, Ne, htext, not_false_eq_true, true_and]

/-- The condition of a branch is chosen when it is a condition and another one than the
stored one. -/
theorem setCondition_eq_true_iff (hids : w.blockIds.Nodup) {kind : Kind} :
    w.setCondition id kind = (true, w') ↔ kind.isCondition ∧
      ∃ before block after, w.blocks = before ++ block :: after ∧ block.id = id ∧
        block.tag = .known .branch ∧ block.condition ≠ some (.known kind) ∧
        w' = { w with
          blocks := before ++ { block with condition := some (.known kind) } :: after } := by
  by_cases hkind : kind.isCondition
  · rw [setCondition, if_pos hkind, update_eq_true_iff hids]
    simp only [decide_eq_true_eq, Ne, hkind, true_and]
  · simp [setCondition, hkind]

theorem append_cons_ne {α : Type} {before after : List α} {a b : α} (h : a ≠ b) :
    before ++ a :: after ≠ before ++ b :: after := by
  simpa using h

/-! ## Truthful edits -/

theorem blocks_ne_of_attempt (hids : w.blockIds.Nodup) {e : Edit}
    (he : ∀ index kind, e ≠ .insert index kind) (h : w.attempt e = (true, w')) :
    w'.blocks ≠ w.blocks := by
  cases e with
  | insert index kind => exact absurd rfl (he index kind)
  | move id target => exact blocks_ne_of_move hids h
  | remove id => exact blocks_ne_of_remove h
  | setLoopCount id text =>
    obtain ⟨-, before, block, after, hblocks, -, -, hcount, rfl⟩ :=
      (setLoopCount_eq_true_iff hids).1 h
    rw [hblocks]
    exact append_cons_ne fun heq => hcount (congrArg (·.loopCount) heq).symm
  | setCondition id kind =>
    obtain ⟨-, before, block, after, hblocks, -, -, hcondition, rfl⟩ :=
      (setCondition_eq_true_iff hids).1 h
    rw [hblocks]
    exact append_cons_ne fun heq => hcondition (congrArg (·.condition) heq).symm

/-- What an edit reports is true: when it reports a change, the sequence is another one,
and when not, nothing has changed; and it issues no identity. A count that is set is the
only difference, and lies in its range; a condition that is chosen is the only difference,
and is a condition. -/
theorem attempt_truthful (hids : w.blockIds.Nodup) :
    (∀ e : Edit, (∀ index kind, e ≠ .insert index kind) →
      ((w.attempt e).1 = true ↔ (w.attempt e).2.blocks ≠ w.blocks) ∧
      ((w.attempt e).1 = false → (w.attempt e).2 = w) ∧ (w.attempt e).2.ids = w.ids) ∧
    (∀ id text w', w.setLoopCount id text = (true, w') ↔ Text.trim text.toList ≠ [] ∧
      ∃ before block after, w.blocks = before ++ block :: after ∧ block.id = id ∧
        block.tag = .known .loop ∧ block.loopCount ≠ some (.ofNat (LoopCount.entered text)) ∧
        w' = { w with
          blocks := before ++
            { block with loopCount := some (.ofNat (LoopCount.entered text)) } :: after }) ∧
    (∀ text, 1 ≤ LoopCount.entered text ∧ LoopCount.entered text ≤ 10) ∧
    ∀ id kind w', w.setCondition id kind = (true, w') ↔ kind.isCondition ∧
      ∃ before block after, w.blocks = before ++ block :: after ∧ block.id = id ∧
        block.tag = .known .branch ∧ block.condition ≠ some (.known kind) ∧
        w' = { w with
          blocks := before ++ { block with condition := some (.known kind) } :: after } := by
  refine ⟨fun e he => ?_, fun _ _ _ => setLoopCount_eq_true_iff hids,
    fun _ => ⟨LoopCount.least_le_normalize _, LoopCount.normalize_le_most _⟩,
    fun _ _ _ => setCondition_eq_true_iff hids⟩
  rcases w.attempt_cases he with hkept | ⟨blocks, hchanged⟩
  · rw [hkept]
    exact ⟨⟨nofun, fun hne => (hne rfl).elim⟩, fun _ => rfl, rfl⟩
  · have hne := blocks_ne_of_attempt hids he hchanged
    rw [hchanged]
    exact ⟨⟨fun _ => hne, fun _ => rfl⟩, nofun, rfl⟩

/-- A stored count that is no number is replaced by the default, which is then there
already. A branch is moved to the front, and not to the slot behind itself. -/
theorem attempt_truthful_no_number :
    let loop : Block := { tag := .known .loop, loopCount := some (0 / 0), id := "a" }
    let branch : Block := { tag := .known .branch, id := "c" }
    let goal : Block := { branch with condition := some (.known .goalReached) }
    let scope (first : Block) : List Block :=
      [{ tag := .known .close, id := "b" }, first, { tag := .known .close, id := "d" }]
    let w : Workspace := { blocks := loop :: scope branch }
    let w' : Workspace := { blocks := { loop with loopCount := some (.ofNat 4) } :: scope branch }
    w.blockIds.Nodup ∧ w.setLoopCount "a" "four" = (true, w') ∧ w'.blocks ≠ w.blocks ∧
      w'.setLoopCount "a" " 4.2 " = (false, w') ∧
      w.setCondition "c" .goalReached = (true, { blocks := loop :: scope goal }) ∧
      w.move "c" 4 = (false, w) ∧ (w.move "c" 0).2.blocks ≠ w.blocks ∧
      (w.move "c" 0).2.ids = w.ids := by
  intro loop branch goal scope w w'
  have hids : w.blockIds.Nodup := by decide
  obtain ⟨hedits, hcount, -, hcondition⟩ := attempt_truthful hids
  have hset : w.setLoopCount "a" "four" = (true, w') := by
    refine (hcount "a" "four" w').2 ⟨by decide, [], loop, _, rfl, rfl, rfl, by decide, ?_⟩
    decide +kernel
  have hgoal : w.setCondition "c" .goalReached = (true, { blocks := loop :: scope goal }) :=
    (hcondition "c" .goalReached _).2
      ⟨rfl, [loop, { tag := .known .close, id := "b" }], branch, _, rfl, rfl, rfl, nofun, rfl⟩
  obtain ⟨hchanged, -, -⟩ := hedits (.setLoopCount "a" "four") nofun
  obtain ⟨-, hkept, -⟩ := hedits (.move "c" 4) nofun
  obtain ⟨hmoved, -, hsupply⟩ := hedits (.move "c" 0) nofun
  have hdiffers : w'.blocks ≠ w.blocks := by
    have := hchanged.1 (congrArg Prod.fst hset)
    rwa [attempt, hset] at this
  exact ⟨hids, hset, hdiffers, by decide +kernel, hgoal, Prod.ext rfl (hkept rfl), hmoved.1 rfl,
    hsupply⟩

end Workspace

end Blockwise
