import Blockwise.Proofs.Workspace.Hydration

/-!
# Running what was edited

A workspace begins empty or with a hydrated sequence. Through every session of
edits its sequence nests and its instructions stay clean (`Workspace.Sound`). So
a run of it either succeeds or fails with an error that tells the learner what to
change: no edit brings about bodies that do not nest, a condition that is none, or
a block that is not in the catalog.
-/

namespace Blockwise

namespace Workspace

/-- The workspaces with which a session begins. -/
inductive Initial : Workspace → Prop where
  | empty (ids : IdSupply) : Initial { blocks := [], ids }
  /-- The sequence of a payload, and the supply that is left. -/
  | hydrated (ids : IdSupply) (payload : Json) :
    Initial
      { blocks := (Hydration.hydrate ids payload).1
        ids := (Hydration.hydrate ids payload).2 }

/-- What all edits keep: the sequence nests, and its blocks are clean. -/
structure Sound (w : Workspace) : Prop where
  balanced : Balanced (roles w.blocks)
  clean : ∀ block ∈ w.blocks, block.Clean

theorem Initial.sound {w : Workspace} (h : w.Initial) : w.Sound := by
  cases h with
  | empty ids =>
    refine ⟨balanced_nil, fun block hblock => ?_⟩
    cases hblock
  | hydrated ids payload =>
    exact ⟨Hydration.balanced_hydrate ids payload,
      fun block hblock => Hydration.clean_of_mem_hydrate hblock⟩

/-! ## Edits keep blocks clean -/

theorem clean_of_mem_insertion {kind : Kind} {instruction : Instruction}
    (h : instruction ∈ insertion kind) : instruction.Clean := by
  unfold insertion at h
  rcases List.mem_cons.1 h with rfl | h
  · refine ⟨⟨kind, rfl⟩, fun tag htag => ?_⟩
    cases htag
  · split at h
    · rw [List.mem_singleton.1 h]
      exact .bare .close
    · cases h

theorem clean_replace {before after : List Block} {block changed : Block}
    (h : ∀ b ∈ before ++ block :: after, b.Clean) (hchanged : changed.Clean) :
    ∀ b ∈ before ++ changed :: after, b.Clean := by
  rw [List.forall_mem_append, List.forall_mem_cons] at h ⊢
  exact ⟨h.1, hchanged, h.2.2⟩

/-- An edit keeps a sequence clean, whether or not it changes it. -/
theorem clean_edit {w : Workspace} (h : ∀ block ∈ w.blocks, block.Clean) (e : Edit) :
    ∀ block ∈ (w.edit e).blocks, block.Clean := by
  unfold edit
  cases e with
  | insert index kind =>
    unfold attempt insert
    rw [List.forall_mem_append, List.forall_mem_append]
    exact ⟨⟨fun block hblock => h block (List.mem_of_mem_take hblock),
      clean_of_mem_number fun instruction hmem => clean_of_mem_insertion hmem⟩,
      fun block hblock => h block (List.mem_of_mem_drop hblock)⟩
  | move id target => exact fun block hblock => h block ((w.perm_move id target).mem_iff.1 hblock)
  | remove id => exact fun block hblock => h block ((w.sublist_remove id).subset hblock)
  | setLoopCount id text =>
    rw [attempt]
    rcases w.setLoopCount_cases id text with hkept | ⟨before, block, after, count, hblocks, hset⟩
    · rw [hkept]
      exact h
    · rw [hblocks] at h
      rw [hset]
      have hblock : block.Clean := h block (List.mem_append_right _ List.mem_cons_self)
      exact clean_replace h ⟨hblock.exists_kind, hblock.condition⟩
  | setCondition id kind =>
    rw [attempt]
    rcases w.setCondition_cases id kind with hkept | ⟨before, block, after, hblocks, hkind, hset⟩
    · rw [hkept]
      exact h
    · rw [hblocks] at h
      rw [hset]
      have hblock : block.Clean := h block (List.mem_append_right _ List.mem_cons_self)
      refine clean_replace h ⟨hblock.exists_kind, fun tag htag => ?_⟩
      cases htag
      rw [Kind.eq_goalReached_of_isCondition hkind]

theorem Sound.edit {w : Workspace} (h : w.Sound) {e : Edit} (he : e.InsertsNoCloser) :
    (w.edit e).Sound :=
  ⟨balanced_edit h.balanced he, clean_edit h.clean e⟩

theorem foldl_edit_mem_stages (w : Workspace) (edits : List Edit) :
    edits.foldl Workspace.edit w ∈ w.stages edits := by
  induction edits generalizing w with
  | nil => exact List.mem_singleton_self w
  | cons e rest ih => exact List.mem_cons_of_mem _ (ih (w.edit e))

theorem Initial.sound_foldl {w : Workspace} (hw : w.Initial) {edits : List Edit}
    (hedits : ∀ e ∈ edits, e.InsertsNoCloser) : (edits.foldl Workspace.edit w).Sound :=
  forall_mem_stages (P := Sound) (fun _ _ h he => h.edit he) hw.sound hedits _
    (foldl_edit_mem_stages w edits)

end Workspace

/-! ## Runs of edited sequences -/

/-- The errors that a run of an edited sequence can have. -/
def sessionErrors : List RunError := .emptyProgram :: .missingStart :: cleanErrors

/-- What can come of a run of an edited sequence. The last three parts name the
errors that learners never see. -/
structure SessionRun (config : Config) (overrides : Overrides) (blocks : List Block) : Prop where
  ok_or_error : (∃ execution, runBlocks config overrides blocks = .ok execution) ∨
    ∃ e ∈ sessionErrors, runBlocks config overrides blocks = .error e
  emptyProgram_iff : runBlocks config overrides blocks = .error .emptyProgram ↔ blocks = []
  missingStart_iff : runBlocks config overrides blocks = .error .missingStart ↔
    ∃ first rest, blocks = first :: rest ∧ first.tag ≠ .known .start
  ne_nesting : ∀ fault, runBlocks config overrides blocks ≠ .error (.nesting fault)
  ne_unknownCondition : ∀ tag, runBlocks config overrides blocks ≠ .error (.unknownCondition tag)
  ne_unknownBlock : ∀ text,
    runBlocks config overrides blocks ≠ .error (.unsupportedBlock (.unknown text))

namespace Workspace.Sound

variable {w : Workspace} {config : Config} {overrides : Overrides}

theorem runBlocks_cases (h : w.Sound) (config : Config) (overrides : Overrides) :
    (w.blocks = [] ∧ runBlocks config overrides w.blocks = .error .emptyProgram) ∨
    ∃ first rest, w.blocks = first :: rest ∧
      ((first.tag ≠ .known .start ∧ runBlocks config overrides w.blocks = .error .missingStart) ∨
        (first.tag = .known .start ∧
          ∀ e, runBlocks config overrides w.blocks = .error e → e ∈ cleanErrors)) :=
  runBlocks_of_clean ((nests_iff_balanced _).2 h.balanced) h.clean config overrides

theorem mem_sessionErrors (h : w.Sound) {e : RunError}
    (he : runBlocks config overrides w.blocks = .error e) : e ∈ sessionErrors := by
  rcases h.runBlocks_cases config overrides with
    ⟨-, hrun⟩ | ⟨first, rest, -, ⟨-, hrun⟩ | ⟨-, hrun⟩⟩
  · rw [hrun] at he
    cases he
    exact List.mem_cons_self
  · rw [hrun] at he
    cases he
    exact List.mem_cons_of_mem _ List.mem_cons_self
  · exact List.mem_cons_of_mem _ (List.mem_cons_of_mem _ (hrun e he))

theorem emptyProgram_iff (h : w.Sound) :
    runBlocks config overrides w.blocks = .error .emptyProgram ↔ w.blocks = [] := by
  constructor
  · intro he
    rcases h.runBlocks_cases config overrides with
      ⟨hnil, -⟩ | ⟨first, rest, -, ⟨-, hrun⟩ | ⟨-, hrun⟩⟩
    · exact hnil
    · rw [hrun] at he
      cases he
    · exact absurd (hrun _ he) (by decide)
  · intro hnil
    rw [hnil]
    rfl

theorem missingStart_iff (h : w.Sound) :
    runBlocks config overrides w.blocks = .error .missingStart ↔
      ∃ first rest, w.blocks = first :: rest ∧ first.tag ≠ .known .start := by
  rcases h.runBlocks_cases config overrides with
    ⟨hnil, hrun⟩ | ⟨first, rest, hcons, ⟨htag, hrun⟩ | ⟨htag, hrun⟩⟩
  · rw [hrun, hnil]
    constructor
    · intro he
      cases he
    · rintro ⟨first, rest, hcons, -⟩
      cases hcons
  · exact ⟨fun _ => ⟨first, rest, hcons, htag⟩, fun _ => hrun⟩
  · constructor
    · intro he
      exact absurd (hrun _ he) (by decide)
    · rintro ⟨first', rest', hcons', htag'⟩
      obtain ⟨rfl, -⟩ := List.cons.inj (hcons.symm.trans hcons')
      exact absurd htag htag'

theorem sessionRun (h : w.Sound) (config : Config) (overrides : Overrides) :
    SessionRun config overrides w.blocks where
  ok_or_error := by
    cases hrun : runBlocks config overrides w.blocks with
    | ok execution => exact Or.inl ⟨execution, rfl⟩
    | error e => exact Or.inr ⟨e, h.mem_sessionErrors hrun, rfl⟩
  emptyProgram_iff := h.emptyProgram_iff
  missingStart_iff := h.missingStart_iff
  ne_nesting := by
    intro fault he
    simpa [sessionErrors, cleanErrors] using h.mem_sessionErrors he
  ne_unknownCondition := by
    intro tag he
    simpa [sessionErrors, cleanErrors] using h.mem_sessionErrors he
  ne_unknownBlock := by
    intro text he
    simpa [sessionErrors, cleanErrors] using h.mem_sessionErrors he

end Workspace.Sound

/-- Whatever edits a session makes, beginning with nothing or with a generated
sequence, a run of the sequence that is left succeeds or fails with an error of a
session. A generated sequence that nobody has edited is not empty and begins with
the start block. -/
theorem runBlocks_of_session (config : Config) (overrides : Overrides) :
    (∀ w : Workspace, w.Initial → ∀ edits : List Edit, (∀ e ∈ edits, e.InsertsNoCloser) →
      SessionRun config overrides (edits.foldl Workspace.edit w).blocks) ∧
    ∀ (ids : IdSupply) (payload : Json),
      runBlocks config overrides (Hydration.hydrate ids payload).1 ≠ .error .emptyProgram ∧
      runBlocks config overrides (Hydration.hydrate ids payload).1 ≠ .error .missingStart := by
  constructor
  · intro w hw edits hedits
    exact (hw.sound_foldl hedits).sessionRun config overrides
  · intro ids payload
    have hsound := (Workspace.Initial.hydrated ids payload).sound
    obtain ⟨first, rest, hcons, htag⟩ := Hydration.exists_hydrate_eq_cons ids payload
    constructor
    · rw [Ne, hsound.emptyProgram_iff, hcons]
      exact List.cons_ne_nil first rest
    · rw [Ne, hsound.missingStart_iff, hcons]
      rintro ⟨first', rest', heq, htag'⟩
      cases heq
      exact htag' htag

/-- A loop that is generated without an end has an empty body until something is
put into it. -/
theorem runBlocks_of_session_generated_loop :
    let payload : Json :=
      .obj [("blocks", .arr [.obj [("type", .str "control_end")],
        .obj [("type", .str "control_for_loop")], .str "noise"])]
    let w : Workspace :=
      { blocks := (Hydration.hydrate {} payload).1, ids := (Hydration.hydrate {} payload).2 }
    let edits : List Edit := [.insert 3 .branch, .move "block-4" 0, .remove "block-4"]
    w.Initial ∧ (∀ e ∈ edits, e.InsertsNoCloser) ∧
      SessionRun {} {} (edits.foldl Workspace.edit w).blocks ∧
      runBlocks {} {} (edits.foldl Workspace.edit w).blocks = .error .emptyLoop ∧
      runBlocks {} {} w.blocks ≠ .error .missingStart := by
  intro payload w edits
  have hw : w.Initial := .hydrated {} payload
  have hedits : ∀ e ∈ edits, e.InsertsNoCloser := by
    rintro e he index rfl
    simp [edits] at he
  obtain ⟨hsession, hhydrated⟩ := runBlocks_of_session {} {}
  have hblocks : (edits.foldl Workspace.edit w).blocks =
      [{ tag := .known .start, id := "block-3" }, { tag := .known .loop, id := "block-1" },
        { tag := .known .close, id := "block-2" }] := by
    decide
  have hrun : runBlocks {} {} (edits.foldl Workspace.edit w).blocks = .error .emptyLoop := by
    rw [hblocks]
    rfl
  exact ⟨hw, hedits, hsession w hw edits hedits, hrun, (hhydrated {} payload).2⟩

end Blockwise
