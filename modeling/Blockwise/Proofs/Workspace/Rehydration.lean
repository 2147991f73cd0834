import Blockwise.Proofs.Json.Reading
import Blockwise.Proofs.Json.Stored
import Blockwise.Proofs.Workspace.Hydration
import Blockwise.Proofs.Workspace.Identity

/-!
# Hydration of what needs no repair

A stored sequence may be hydrated again. If it nests and begins with the start
block, and if its blocks are `Settled`, then each of them is a candidate with its
own instruction (`candidate?_toJson`), nothing is left out and nothing is added,
and so nothing but the identities is new (`rehydrates_of_settled`). What hydration
makes of a payload in range is such a sequence, and a payload that was read from
a text is in range.
-/

namespace Blockwise

/-- A clean instruction that has a condition only as a branch and a count only as
a loop, and then a finite one. -/
structure Instruction.Settled (instruction : Instruction) : Prop extends instruction.Clean where
  branch_of_condition : ∀ tag, instruction.condition = some tag → instruction.tag = .known .branch
  loop_of_loopCount : ∀ x, instruction.loopCount = some x → instruction.tag = .known .loop
  isFinite_of_loopCount : ∀ x, instruction.loopCount = some x → x.isFinite = true

theorem Instruction.Settled.bare (kind : Kind) : (Instruction.bare (.known kind)).Settled where
  toClean := .bare kind
  branch_of_condition := nofun
  loop_of_loopCount := nofun
  isFinite_of_loopCount := nofun

namespace Hydration

/-! ## One block -/

theorem condition?_of_memberOf? {members : List (String × Json)} {condition : Option Tag}
    (h : Json.memberOf? "conditionId" members = condition.map Tag.toJson)
    (hclean : ∀ tag, condition = some tag → tag = .known .goalReached) :
    condition? members = condition := by
  unfold condition?
  rw [h]
  cases condition with
  | none => rfl
  | some tag => rw [hclean tag rfl]; decide

theorem loopCount?_of_memberOf? {members : List (String × Json)} {count : Option Float}
    (h : Json.memberOf? "loopCount" members = count.map Json.ofFloat)
    (hfinite : ∀ x, count = some x → x.isFinite = true) : loopCount? members = count := by
  unfold loopCount?
  rw [h]
  cases count with
  | none => rfl
  | some x => exact Json.float?_ofFloat (hfinite x rfl)

/-- A field of an instruction of some kind that is found as it was stored is the
field of that instruction, as no other kind has one. -/
theorem ite_eq_of_some {α : Type} {kind only : Kind} {found field : Option α}
    (hfound : found = field) (honly : ∀ a, field = some a → kind = only) :
    (if kind = only then found else none) = field := by
  cases field with
  | none => rw [hfound, ite_self]
  | some a => rw [if_pos (honly a rfl), hfound]

theorem memberOf?_members (block : Block) {name : String} (h : name ∈ Block.fieldNames) :
    Json.memberOf? name block.members = block.members.lookup name :=
  Json.memberOf?_eq_lookup block.fields?_toJson h

theorem instruction_members {block : Block} (h : block.Settled) {kind : Kind}
    (hkind : block.tag = .known kind) : instruction kind block.members = block.toInstruction := by
  obtain ⟨-, -, hcondition, hcount⟩ := block.lookup_members
  rw [← memberOf?_members block (by decide)] at hcondition hcount
  have hbranch : (if kind = .branch then condition? block.members else none) = block.condition :=
    ite_eq_of_some (condition?_of_memberOf? hcondition h.condition)
      fun tag htag => Tag.known.inj (hkind.symm.trans (h.branch_of_condition tag htag))
  have hloop : (if kind = .loop then loopCount? block.members else none) = block.loopCount :=
    ite_eq_of_some (loopCount?_of_memberOf? hcount h.isFinite_of_loopCount)
      fun x hx => Tag.known.inj (hkind.symm.trans (h.loop_of_loopCount x hx))
  rw [instruction, hbranch, hloop, ← hkind]

theorem candidate?_toJson {block : Block} (h : block.Settled) :
    candidate? block.toJson = some block.toInstruction := by
  obtain ⟨kind, hkind⟩ := h.exists_kind
  obtain ⟨-, htag, -, -⟩ := block.lookup_members
  rw [← memberOf?_members block (by decide)] at htag
  have htype : (Json.memberOf? "type" block.members).bind Json.string? = some kind.tag := by
    rw [htag, hkind]
    rfl
  have hmembers : block.toJson.members? = some block.members := rfl
  simp only [candidate?, hmembers, htype, Kind.ofTag?_tag, Option.bind_eq_bind, Option.bind_some,
    instruction_members h hkind]

/-! ## A whole sequence -/

/-- Where the count goes through, nothing is left out. -/
theorem balance_of_level? {opened e : Nat} {instructions : List Instruction}
    (h : level? opened (instructions.map Instruction.role) = some e) :
    balance opened instructions =
      instructions ++ List.replicate e (.bare (.known .close)) := by
  induction instructions generalizing opened with
  | nil =>
    obtain rfl : opened = e := Option.some.inj h
    rw [balance_nil, List.nil_append]
  | cons instruction rest ih =>
    rw [List.map_cons, level?_cons, Option.bind_eq_some_iff] at h
    obtain ⟨d, hd, hrest⟩ := h
    rw [balance_of_some hd, ih hrest, List.cons_append]

theorem instructions_arr_map_toJson {blocks : List Block} (hnests : Nests blocks)
    (hsettled : ∀ block ∈ blocks, block.Settled) :
    instructions (.arr (blocks.map Block.toJson)) = blocks.map Block.toInstruction := by
  have hcandidates : (blocks.map Block.toJson).filterMap candidate? =
      blocks.map Block.toInstruction := by
    rw [List.filterMap_map, ← List.filterMap_eq_map]
    exact List.filterMap_congr fun block hblock => candidate?_toJson (hsettled block hblock)
  have hlevel : level? 0 ((blocks.map Block.toInstruction).map Instruction.role) = some 0 := by
    rw [List.map_map]
    exact (balanced_iff_level? _).1 ((nests_iff_balanced _).1 hnests)
  change balance 0 ((blocks.map Block.toJson).filterMap candidate?) = _
  rw [hcandidates, balance_of_level? hlevel, List.replicate_zero, List.append_nil]

/-- The payload is the stored form of a sequence, bare or under `blocks`. -/
def Carries (payload : Json) (blocks : List Block) : Prop :=
  payload = .arr (blocks.map Block.toJson) ∨
    ∃ members, payload = .obj members ∧
      Json.memberOf? "blocks" members = some (.arr (blocks.map Block.toJson))

theorem Carries.entries_eq {payload : Json} {blocks : List Block} (h : Carries payload blocks) :
    entries payload = .arr (blocks.map Block.toJson) := by
  rcases h with rfl | ⟨members, rfl, hmember⟩
  · rfl
  · rw [entries, hmember, Option.getD_some]

/-- A result has the instructions of a sequence in their order, with the next
identities of a supply in theirs, and what is left of the supply. -/
structure Renumbers (ids : IdSupply) (blocks : List Block) (result : List Block × IdSupply) :
    Prop where
  map_toInstruction : result.1.map Block.toInstruction = blocks.map Block.toInstruction
  map_id : result.1.map Block.id = ids.upcoming blocks.length
  rest_eq : result.2 = ids.skip blocks.length
  /-- If the counter does not come to its end, these are the next numbers. -/
  map_id_of_lt : ids.issued.toNat + blocks.length < 2 ^ 64 →
    result.1.map Block.id =
      (List.range' (ids.issued.toNat + 1) blocks.length).map IdSupply.nth

theorem renumbers_number (ids : IdSupply) (blocks : List Block) :
    Renumbers ids blocks (ids.number (blocks.map Block.toInstruction), ids.skip blocks.length) := by
  have hids : (ids.number (blocks.map Block.toInstruction)).map Block.id =
      ids.upcoming blocks.length := by
    rw [IdSupply.map_id_number, List.length_map]
  exact
    { map_toInstruction := IdSupply.map_toInstruction_number ids _
      map_id := hids
      rest_eq := rfl
      map_id_of_lt := fun hcount => hids.trans (IdSupply.upcoming_eq hcount) }

/-- Hydrating the stored form of a sequence changes nothing but the identities,
which are then numbered in order. -/
def Rehydrates (ids : IdSupply) (blocks : List Block) : Prop :=
  ∀ stored, Carries stored blocks → Renumbers ids blocks (hydrate ids stored)

theorem rehydrates_of_settled {blocks : List Block} (hnests : Nests blocks)
    (hstart : ∃ first rest, blocks = first :: rest ∧ first.tag = .known .start)
    (hsettled : ∀ block ∈ blocks, block.Settled) (ids : IdSupply) : Rehydrates ids blocks := by
  intro stored h
  have hfound : Hydration.blocks ids (entries stored) =
      (ids.number (blocks.map Block.toInstruction), ids.skip blocks.length) := by
    rw [Hydration.blocks, h.entries_eq, instructions_arr_map_toJson hnests hsettled,
      List.length_map]
  have hfirst : ((ids.number (blocks.map Block.toInstruction)).head?.any
      fun block => block.tag == .known .start) = true := by
    obtain ⟨first, rest, rfl, htag⟩ := hstart
    simp [IdSupply.number_cons, htag]
  have hresult : hydrate ids stored =
      (ids.number (blocks.map Block.toInstruction), ids.skip blocks.length) := by
    unfold hydrate
    rw [hfound]
    exact if_pos hfirst
  rw [hresult]
  exact renumbers_number ids blocks

/-! ## What was hydrated before -/

theorem settled_instruction (kind : Kind) {members : List (String × Json)}
    (hrange : (Json.obj members).InRange) : (instruction kind members).Settled where
  toClean := clean_instruction kind members
  branch_of_condition := by
    intro tag h
    obtain ⟨hkind, -⟩ := (Option.ite_none_right_eq_some ..).1 h
    rw [instruction, hkind]
  loop_of_loopCount := by
    intro x h
    obtain ⟨hkind, -⟩ := (Option.ite_none_right_eq_some ..).1 h
    rw [instruction, hkind]
  isFinite_of_loopCount := by
    intro x h
    obtain ⟨-, hcount⟩ := (Option.ite_none_right_eq_some ..).1 h
    obtain ⟨j, hj, hx⟩ := Option.bind_eq_some_iff.1 hcount
    exact Json.isFinite_of_float? (hrange.of_memberOf? hj) hx

theorem settled_of_candidate? {entry : Json} {found : Instruction} (hrange : entry.InRange)
    (h : candidate? entry = some found) : found.Settled := by
  unfold candidate? at h
  obtain ⟨members, hmembers, h⟩ := Option.bind_eq_some_iff.1 h
  obtain ⟨type, -, h⟩ := Option.bind_eq_some_iff.1 h
  obtain ⟨kind, -, h⟩ := Option.bind_eq_some_iff.1 h
  cases h
  cases entry with
  | obj own => cases hmembers; exact settled_instruction kind hrange
  | null | bool | num | str | arr | void => cases hmembers

theorem inRange_entries {payload : Json} (h : payload.InRange) : (entries payload).InRange := by
  cases payload with
  | obj members =>
    unfold entries
    dsimp only
    cases hmember : Json.memberOf? "blocks" members with
    | none => exact .null
    | some j => exact h.of_memberOf? hmember
  | null | bool | num | str | arr | void => exact h

theorem settled_of_mem_hydrate {ids : IdSupply} {payload : Json} (hrange : payload.InRange)
    {block : Block} (h : block ∈ (hydrate ids payload).1) : block.Settled := by
  rcases exists_of_mem_hydrate h with ⟨kind, hkind⟩ | ⟨items, hitems, entry, hmem, hentry⟩
  · rw [hkind]
    exact .bare kind
  · have harr := inRange_entries hrange
    rw [hitems] at harr
    exact settled_of_candidate? (harr.of_mem_arr entry hmem) hentry

theorem rehydrates_hydrate {payload : Json} (hrange : payload.InRange) (before ids : IdSupply) :
    Rehydrates ids (hydrate before payload).1 :=
  rehydrates_of_settled ((nests_iff_balanced _).2 (balanced_hydrate before payload))
    (exists_hydrate_eq_cons before payload) (fun _ => settled_of_mem_hydrate hrange) ids

/-- A sequence that needs no repair is not changed when its stored form is hydrated:
one that nests, begins with the start block and is made of settled blocks. It gets new
identities, which are the next ones of the supply, in order; this also holds for a supply
that comes to the end of its numbers and begins again. Therefore nothing else changes
when what was hydrated before is hydrated again, be it from a payload in range or from
any text. -/
theorem hydrate_stored (ids : IdSupply) :
    (∀ blocks : List Block, Nests blocks →
      (∃ first rest, blocks = first :: rest ∧ first.tag = .known .start) →
      (∀ block ∈ blocks, block.Settled) → Rehydrates ids blocks) ∧
    (∀ (before : IdSupply) (payload : Json), payload.InRange →
      Rehydrates ids (hydrate before payload).1) ∧
    ∀ (before : IdSupply) (text : String),
      Rehydrates ids (hydrate before (Json.ofStringOrNull text)).1 :=
  ⟨fun _ hnests hstart hsettled => rehydrates_of_settled hnests hstart hsettled ids,
    fun before _ hrange => rehydrates_hydrate hrange before ids,
    fun before text => rehydrates_hydrate (Json.inRange_ofStringOrNull text) before ids⟩

/-- A loop around a branch with its condition, stored under `blocks`, and a payload
that has to be repaired before it is stored. -/
theorem hydrate_stored_nested :
    let loop : Instruction := { tag := .known .loop, loopCount := some 2.5 }
    let branch : Instruction := { tag := .known .branch, condition := some (.known .goalReached) }
    let close : Instruction := .bare (.known .close)
    let blocks := (IdSupply.mk 2).number
      [.bare (.known .start), loop, branch, .bare (.known .move), close, close]
    let stored : Json := .obj [("note", .null), ("blocks", .arr (blocks.map Block.toJson))]
    let payload : Json := .arr [.obj [("type", .str "control_end")],
      .obj [("type", .str "control_for_loop"), ("loopCount", .num (.int 18446744073709551615))]]
    let repaired := (hydrate {} payload).1
    let numbers (first n : Nat) := (List.range' first n).map IdSupply.nth
    Nests blocks ∧ (∀ block ∈ blocks, block.Settled) ∧ Carries stored blocks ∧
      (hydrate ⟨7⟩ stored).1.map Block.toInstruction = blocks.map Block.toInstruction ∧
      (hydrate ⟨7⟩ stored).1.map Block.id = numbers 8 6 ∧
      (hydrate ⟨18446744073709551615⟩ stored).1.map Block.id = numbers 0 6 ∧
      payload.InRange ∧
      (hydrate ⟨7⟩ (.arr (repaired.map Block.toJson))).1.map Block.toInstruction =
        repaired.map Block.toInstruction ∧
      (hydrate ⟨7⟩ (.arr (repaired.map Block.toJson))).1.map Block.id = numbers 8 3 := by
  intro loop branch close blocks stored payload repaired numbers
  obtain ⟨hstored, hrepaired, -⟩ := hydrate_stored ⟨7⟩
  obtain ⟨hstored', -, -⟩ := hydrate_stored ⟨18446744073709551615⟩
  have hnests : Nests blocks := ⟨_, rfl⟩
  have hloop : loop.Settled :=
    { exists_kind := ⟨.loop, rfl⟩
      condition := nofun
      branch_of_condition := nofun
      loop_of_loopCount := fun _ _ => rfl
      isFinite_of_loopCount := by rintro x ⟨⟩; decide }
  have hbranch : branch.Settled :=
    { exists_kind := ⟨.branch, rfl⟩
      condition := by rintro tag ⟨⟩; rfl
      branch_of_condition := fun _ _ => rfl
      loop_of_loopCount := nofun
      isFinite_of_loopCount := nofun }
  have hsettled : ∀ block ∈ blocks, block.Settled := by
    intro block hblock
    have hmem := toInstruction_mem_of_mem_number hblock
    simp only [List.mem_cons, List.not_mem_nil, or_false] at hmem
    rcases hmem with h | h | h | h | h | h <;> rw [h]
    · exact .bare .start
    · exact hloop
    · exact hbranch
    · exact .bare .move
    · exact .bare .close
    · exact .bare .close
  have hcarries : Carries stored blocks := Or.inr ⟨_, rfl, rfl⟩
  have hrange : payload.InRange := by
    refine .arr (List.forall_mem_cons.2 ⟨.obj ?_, List.forall_mem_singleton.2 (.obj ?_)⟩)
    · exact List.forall_mem_singleton.2 (.str _)
    · exact List.forall_mem_cons.2
        ⟨.str _, List.forall_mem_singleton.2 (.num ⟨by decide, by decide⟩)⟩
  have hrenumbers := hstored blocks hnests ⟨_, _, rfl, rfl⟩ hsettled stored hcarries
  have haround := hstored' blocks hnests ⟨_, _, rfl, rfl⟩ hsettled stored hcarries
  have hrepairs := hrepaired {} payload hrange _ (Or.inl rfl)
  have hupcoming : (IdSupply.mk 18446744073709551615).upcoming 6 = numbers 0 6 := by decide
  exact ⟨hnests, hsettled, hcarries, hrenumbers.map_toInstruction,
    hrenumbers.map_id_of_lt (by decide), haround.map_id.trans hupcoming, hrange,
    hrepairs.map_toInstruction, hrepairs.map_id_of_lt (by decide)⟩

end Hydration

end Blockwise
