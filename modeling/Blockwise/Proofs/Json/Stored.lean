import Blockwise.Challenge.Json
import Blockwise.Program.Json
import Blockwise.Proofs.Json.InRange
import Blockwise.Proofs.Json.Record
import Blockwise.Proofs.Program.Preorder

/-!
# What is stored is read back

Every record is read back from the value it is written as. For the records that
hold tags and doubles there are two exceptions, which no record has that was read
itself: a double that is not finite has no JSON form, and an unknown tag that is
spelled like a kind is read as that kind. The other records are `Storable`.
-/

namespace Blockwise

/-! ## Tags and instructions -/

theorem Tag.ofJson?_toJson {tag : Tag} (h : tag.Canonical) : ofJson? tag.toJson = some tag :=
  congrArg some (tag.ofText_text_iff.2 h)

theorem Tag.canonical_of_ofJson? {j : Json} {tag : Tag} (h : ofJson? j = some tag) :
    tag.Canonical := by
  obtain ⟨text, -, rfl⟩ := Option.map_eq_some_iff.1 h
  exact canonical_ofText text

/-- The tag and the condition are canonical, and the count is finite. -/
structure Instruction.Storable (instruction : Instruction) : Prop where
  tag : instruction.tag.Canonical
  condition : ∀ tag, instruction.condition = some tag → tag.Canonical
  loopCount : ∀ x, instruction.loopCount = some x → x.isFinite = true

namespace Instruction

theorem listed_payloadMembers (instruction : Instruction) :
    Json.Listed ["conditionId", "loopCount"] instruction.payloadMembers :=
  (Json.listed_memberOf ..).append (Json.listed_memberOf ..)

theorem lookup_payloadMembers (instruction : Instruction) (key : String) :
    instruction.payloadMembers.lookup key =
      if key = "conditionId" then instruction.condition.map Tag.toJson
      else if key = "loopCount" then instruction.loopCount.map Json.ofFloat else none := by
  rw [payloadMembers, List.lookup_append, Json.lookup_memberOf, Json.lookup_memberOf]
  by_cases hkey : key = "conditionId"
  · subst hkey
    simp
  · simp [hkey]

theorem Storable.ofFields?_eq {instruction : Instruction} (h : instruction.Storable)
    {fields : Fields} (htag : fields.lookup "type" = some instruction.tag.toJson)
    (hcondition : fields.lookup "conditionId" = instruction.condition.map Tag.toJson)
    (hcount : fields.lookup "loopCount" = instruction.loopCount.map Json.ofFloat) :
    ofFields? fields = some instruction := by
  unfold ofFields?
  rw [Fields.required_eq_some htag (Tag.ofJson?_toJson h.tag),
    Fields.optional_eq_some hcondition rfl fun tag htag => Tag.ofJson?_toJson (h.condition tag htag),
    Fields.optional_eq_some hcount rfl fun x hx => Json.float?_ofFloat (h.loopCount x hx)]
  rfl

theorem storable_of_ofFields? {fields : Fields} {instruction : Instruction}
    (hrange : ∀ name j, fields.lookup name = some j → j.InRange)
    (h : ofFields? fields = some instruction) : instruction.Storable := by
  obtain ⟨tag, htag, h⟩ := Option.bind_eq_some_iff.1 h
  obtain ⟨condition, hcondition, h⟩ := Option.bind_eq_some_iff.1 h
  obtain ⟨loopCount, hcount, h⟩ := Option.bind_eq_some_iff.1 h
  cases h
  constructor
  · obtain ⟨j, -, hj⟩ := Option.bind_eq_some_iff.1 htag
    exact Tag.canonical_of_ofJson? hj
  · rintro chosen rfl
    obtain ⟨j, -, hj⟩ := Fields.exists_of_optional_eq_some hcondition
    exact Tag.canonical_of_ofJson? hj
  · rintro x rfl
    obtain ⟨j, hlookup, hj⟩ := Fields.exists_of_optional_eq_some hcount
    exact Json.isFinite_of_float? (hrange _ j hlookup) hj

end Instruction

/-! ## Blocks -/

namespace Block

/-- The members of a stored block. -/
def members (block : Block) : List (String × Json) :=
  [("id", .str block.id), ("type", block.tag.toJson)] ++ block.payloadMembers

theorem listed_members (block : Block) : Json.Listed fieldNames block.members :=
  (block.listed_payloadMembers.cons _).cons _

theorem fields?_toJson (block : Block) : block.toJson.fields? fieldNames 0 = some block.members :=
  Json.fields?_obj block.listed_members (by decide) 0

theorem lookup_members (block : Block) :
    block.members.lookup "id" = some (.str block.id) ∧
      block.members.lookup "type" = some block.tag.toJson ∧
      block.members.lookup "conditionId" = block.condition.map Tag.toJson ∧
      block.members.lookup "loopCount" = block.loopCount.map Json.ofFloat := by
  have hpayload := block.lookup_payloadMembers
  simp [members, List.lookup_cons, hpayload]

theorem ofJson?_toJson {block : Block} (h : block.Storable) : ofJson? block.toJson = some block := by
  obtain ⟨hid, htag, hcondition, hcount⟩ := block.lookup_members
  have hread : Fields.required block.members "id" Json.string? = some block.id :=
    Fields.required_eq_some hid rfl
  unfold ofJson?
  rw [fields?_toJson, Option.bind_eq_bind, Option.bind_some, hread,
    h.ofFields?_eq htag hcondition hcount]
  rfl

theorem storable_of_ofJson? {j : Json} {block : Block} (hj : j.InRange)
    (h : ofJson? j = some block) : block.Storable := by
  obtain ⟨fields, hfields, h⟩ := Option.bind_eq_some_iff.1 h
  obtain ⟨id, -, h⟩ := Option.bind_eq_some_iff.1 h
  obtain ⟨instruction, hinstruction, h⟩ := Option.bind_eq_some_iff.1 h
  cases h
  exact Instruction.storable_of_ofFields? (fun _ _ => hj.of_lookup hfields) hinstruction

end Block

/-! ## Nodes -/

namespace Node

theorem ofJson?_eq (j : Json) :
    ofJson? j = (j.fields? fieldNames 0).bind fun fields =>
      (Instruction.ofFields? fields).bind fun instruction =>
        (fields.withDefault "children" [] (Json.list? ofJson?)).bind fun children =>
          some ⟨instruction, children⟩ := by
  rw [ofJson?]
  split
  · next hfields => rw [hfields]; rfl
  · next fields hfields =>
    rw [hfields, Option.bind_some]
    refine congrArg (Option.bind _) (funext fun instruction => ?_)
    unfold Fields.withDefault
    dsimp only
    split
    · next hlookup => rw [hlookup]; rfl
    · next list hlookup =>
      rw [hlookup]
      split
      · next hitems => simp only [Json.list?, hitems]; rfl
      · next items hitems =>
        simp only [Json.list?, hitems, Option.bind_some]
        rw [List.mapM_subtype (g := ofJson?) (fun _ _ => rfl), List.unattach_attach]
        rfl

theorem listToJson_eq_map (nodes : List Node) : listToJson nodes = nodes.map toJson := by
  induction nodes with
  | nil => rw [listToJson, List.map_nil]
  | cons node rest ih => rw [listToJson, ih, List.map_cons]

/-- The instructions of a node are storable, at every depth. -/
def Storable (node : Node) : Prop := ∀ n ∈ node.preorder, n.instruction.Storable

theorem storable_mk_iff (instruction : Instruction) (children : List Node) :
    Storable ⟨instruction, children⟩ ↔ instruction.Storable ∧ ∀ child ∈ children, child.Storable := by
  unfold Storable
  rw [preorder_eq, List.forall_mem_cons]
  refine and_congr_right fun _ => ⟨fun h child hchild n hn => ?_, fun h n hn => ?_⟩
  · exact h n (Program.mem_preorder.2 ⟨child, hchild, hn⟩)
  · obtain ⟨child, hchild, hn⟩ := Program.mem_preorder.1 hn
    exact h child hchild n hn

theorem ofJson?_toJson {node : Node} (h : node.Storable) : ofJson? node.toJson = some node := by
  induction node using Node.induction with
  | mk instruction children ih =>
    obtain ⟨hinstruction, hchildren⟩ := (storable_mk_iff ..).1 h
    have hlisted : Json.Listed fieldNames ([("type", instruction.tag.toJson),
        ("children", Json.arr (children.map toJson))] ++ instruction.payloadMembers) :=
      (instruction.listed_payloadMembers.cons _).cons _
    have hpayload := instruction.lookup_payloadMembers
    rw [ofJson?_eq, toJson, listToJson_eq_map, Json.fields?_obj hlisted (by decide),
      Option.bind_some]
    generalize hmembers : [("type", instruction.tag.toJson),
      ("children", Json.arr (children.map toJson))] ++ instruction.payloadMembers = members
    have hread : Instruction.ofFields? members = some instruction :=
      hinstruction.ofFields?_eq (by simp [← hmembers])
        (by simp [← hmembers, List.lookup_cons, hpayload])
        (by simp [← hmembers, List.lookup_cons, hpayload])
    have hbody : Fields.withDefault members "children" [] (Json.list? ofJson?) = some children :=
      Fields.withDefault_eq_some (j := .arr (children.map toJson))
        (by simp [← hmembers, List.lookup_cons])
        (Json.list?_arr_map fun child hchild => ih child hchild (hchildren child hchild))
    rw [hread, Option.bind_some, hbody, Option.bind_some]

theorem storable_of_ofJson? {j : Json} {node : Node} (hj : j.InRange)
    (h : ofJson? j = some node) : node.Storable := by
  induction node using Node.induction generalizing j with
  | mk instruction children ih =>
    rw [ofJson?_eq] at h
    obtain ⟨fields, hfields, h⟩ := Option.bind_eq_some_iff.1 h
    obtain ⟨instruction', hinstruction, h⟩ := Option.bind_eq_some_iff.1 h
    obtain ⟨children', hchildren, h⟩ := Option.bind_eq_some_iff.1 h
    cases h
    have hrange : ∀ name j, fields.lookup name = some j → j.InRange :=
      fun _ _ => hj.of_lookup hfields
    refine (storable_mk_iff ..).2
      ⟨Instruction.storable_of_ofFields? hrange hinstruction, fun child hchild => ?_⟩
    unfold Fields.withDefault at hchildren
    split at hchildren
    · cases hchildren
      cases hchild
    · next list hlookup =>
      obtain ⟨items, rfl, item, hitem, hread⟩ := Json.exists_of_mem_list? hchildren hchild
      exact ih child hchild ((hrange _ _ hlookup).of_mem_arr item hitem) hread

end Node

/-! ## Characters and overrides -/

namespace Character

theorem messagesOfJson?_toJson (messages : List String) :
    messagesOfJson? (messagesToJson messages) = some messages :=
  Json.list?_arr_map fun _ _ => rfl

theorem ofJson?_toJson (c : Character) : ofJson? c.toJson = some c := by
  have hlisted : Json.Listed fieldNames
      [("x", .ofWord c.x), ("y", .ofWord c.y), ("moveTotal", .ofWord c.moveTotal),
        ("maxY", .ofWord c.maxY), ("minY", .ofWord c.minY), ("jumpCount", .ofWord c.jumpCount),
        ("messages", messagesToJson c.messages)] :=
    List.Sublist.refl _
  unfold ofJson? toJson
  rw [Json.fields?_obj hlisted (by decide)]
  simp [Fields.required, List.lookup_cons, Json.word?_ofWord, messagesOfJson?_toJson]

end Character

namespace Overrides

/-- The members of the parts that are there. -/
def members (o : Overrides) : List (String × Json) :=
  Json.memberOf "x" Json.ofWord o.x ++ Json.memberOf "y" Json.ofWord o.y ++
    Json.memberOf "moveTotal" Json.ofWord o.moveTotal ++ Json.memberOf "maxY" Json.ofWord o.maxY ++
    Json.memberOf "minY" Json.ofWord o.minY ++ Json.memberOf "jumpCount" Json.ofWord o.jumpCount ++
    Json.memberOf "messages" Character.messagesToJson o.messages

theorem listed_members (o : Overrides) : Json.Listed Character.fieldNames o.members :=
  ((((((Json.listed_memberOf ..).append (Json.listed_memberOf ..)).append
    (Json.listed_memberOf ..)).append (Json.listed_memberOf ..)).append
    (Json.listed_memberOf ..)).append (Json.listed_memberOf ..)).append (Json.listed_memberOf ..)

theorem fields?_toJson (o : Overrides) : o.toJson.fields? Character.fieldNames 0 = some o.members :=
  Json.fields?_obj o.listed_members (by decide) 0

theorem lookup_members (o : Overrides) :
    o.members.lookup "x" = o.x.map Json.ofWord ∧ o.members.lookup "y" = o.y.map Json.ofWord ∧
      o.members.lookup "moveTotal" = o.moveTotal.map Json.ofWord ∧
      o.members.lookup "maxY" = o.maxY.map Json.ofWord ∧
      o.members.lookup "minY" = o.minY.map Json.ofWord ∧
      o.members.lookup "jumpCount" = o.jumpCount.map Json.ofWord ∧
      o.members.lookup "messages" = o.messages.map Character.messagesToJson := by
  simp [members, List.lookup_append, Json.lookup_memberOf]

theorem ofJson?_toJson (o : Overrides) : ofJson? o.toJson = some o := by
  obtain ⟨hx, hy, hmoveTotal, hmaxY, hminY, hjumpCount, hmessages⟩ := o.lookup_members
  have hword {name : String} {field : Option Int64}
      (h : o.members.lookup name = field.map Json.ofWord) :
      Fields.optional o.members name Json.word? = some field :=
    Fields.optional_eq_some h rfl fun n _ => Json.word?_ofWord n
  have htexts : Fields.optional o.members "messages" Character.messagesOfJson? = some o.messages :=
    Fields.optional_eq_some hmessages rfl fun texts _ => Character.messagesOfJson?_toJson texts
  unfold ofJson?
  rw [fields?_toJson]
  simp only [Option.bind_eq_bind, Option.bind_some, hword hx, hword hy, hword hmoveTotal,
    hword hmaxY, hword hminY, hword hjumpCount, htexts]

end Overrides

/-! ## Expectations -/

namespace Expectation

/-- The numbers of an expectation, as far as they are there. -/
def targets (e : Expectation) : List (Option Float) :=
  [e.x, e.y, e.moveTotal, e.jumpCount, e.maxY, e.minY]

/-- All numbers of an expectation are finite. -/
def Storable (e : Expectation) : Prop := ∀ target ∈ e.targets, ∀ x ∈ target, x.isFinite = true

instance (e : Expectation) : Decidable e.Storable := by
  unfold Storable
  infer_instance

/-- The members of the parts that are there. -/
def members (e : Expectation) : List (String × Json) :=
  Json.memberOf "x" Json.ofFloat e.x ++ Json.memberOf "y" Json.ofFloat e.y ++
    Json.memberOf "moveTotal" Json.ofFloat e.moveTotal ++
    Json.memberOf "jumpCount" Json.ofFloat e.jumpCount ++
    Json.memberOf "maxY" Json.ofFloat e.maxY ++ Json.memberOf "minY" Json.ofFloat e.minY ++
    Json.memberOf "messageIncludes" Json.str e.messageIncludes ++
    Json.memberOf "lastMessage" Json.str e.lastMessage

theorem listed_members (e : Expectation) : Json.Listed fieldNames e.members :=
  (((((((Json.listed_memberOf ..).append (Json.listed_memberOf ..)).append
    (Json.listed_memberOf ..)).append (Json.listed_memberOf ..)).append
    (Json.listed_memberOf ..)).append (Json.listed_memberOf ..)).append
    (Json.listed_memberOf ..)).append (Json.listed_memberOf ..)

theorem fields?_toJson (e : Expectation) : e.toJson.fields? fieldNames 0 = some e.members :=
  Json.fields?_obj e.listed_members (by decide) 0

theorem lookup_members (e : Expectation) :
    e.members.lookup "x" = e.x.map Json.ofFloat ∧ e.members.lookup "y" = e.y.map Json.ofFloat ∧
      e.members.lookup "moveTotal" = e.moveTotal.map Json.ofFloat ∧
      e.members.lookup "jumpCount" = e.jumpCount.map Json.ofFloat ∧
      e.members.lookup "maxY" = e.maxY.map Json.ofFloat ∧
      e.members.lookup "minY" = e.minY.map Json.ofFloat ∧
      e.members.lookup "messageIncludes" = e.messageIncludes.map Json.str ∧
      e.members.lookup "lastMessage" = e.lastMessage.map Json.str := by
  simp [members, List.lookup_append, Json.lookup_memberOf]

theorem ofJson?_toJson {e : Expectation} (h : e.Storable) : ofJson? e.toJson = some e := by
  obtain ⟨hx, hy, hmoveTotal, hjumpCount, hmaxY, hminY, hincludes, hlast⟩ := e.lookup_members
  have hnumber {name : String} {field : Option Float}
      (hlookup : e.members.lookup name = field.map Json.ofFloat) (hmem : field ∈ e.targets) :
      Fields.optional e.members name Json.float? = some field :=
    Fields.optional_eq_some hlookup rfl fun x hx => Json.float?_ofFloat (h field hmem x hx)
  have htext {name : String} {field : Option String}
      (hlookup : e.members.lookup name = field.map Json.str) :
      Fields.optional e.members name Json.string? = some field :=
    Fields.optional_eq_some hlookup rfl fun _ _ => rfl
  unfold ofJson?
  rw [fields?_toJson]
  simp only [Option.bind_eq_bind, Option.bind_some, hnumber hx (by simp [targets]),
    hnumber hy (by simp [targets]), hnumber hmoveTotal (by simp [targets]),
    hnumber hjumpCount (by simp [targets]), hnumber hmaxY (by simp [targets]),
    hnumber hminY (by simp [targets]), htext hincludes, htext hlast]

theorem storable_of_ofJson? {j : Json} {e : Expectation} (hj : j.InRange)
    (h : ofJson? j = some e) : e.Storable := by
  obtain ⟨fields, hfields, h⟩ := Option.bind_eq_some_iff.1 h
  have hfinite {name : String} {field : Option Float}
      (hread : fields.optional name Json.float? = some field) :
      ∀ x ∈ field, x.isFinite = true := by
    rintro x rfl
    obtain ⟨j, hlookup, hx⟩ := Fields.exists_of_optional_eq_some hread
    exact Json.isFinite_of_float? (hj.of_lookup hfields hlookup) hx
  obtain ⟨x, hx, h⟩ := Option.bind_eq_some_iff.1 h
  obtain ⟨y, hy, h⟩ := Option.bind_eq_some_iff.1 h
  obtain ⟨moveTotal, hmoveTotal, h⟩ := Option.bind_eq_some_iff.1 h
  obtain ⟨jumpCount, hjumpCount, h⟩ := Option.bind_eq_some_iff.1 h
  obtain ⟨maxY, hmaxY, h⟩ := Option.bind_eq_some_iff.1 h
  obtain ⟨minY, hminY, h⟩ := Option.bind_eq_some_iff.1 h
  obtain ⟨messageIncludes, -, h⟩ := Option.bind_eq_some_iff.1 h
  obtain ⟨lastMessage, -, h⟩ := Option.bind_eq_some_iff.1 h
  cases h
  simp only [Storable, targets, List.forall_mem_cons]
  exact ⟨hfinite hx, hfinite hy, hfinite hmoveTotal, hfinite hjumpCount, hfinite hmaxY,
    hfinite hminY, List.forall_mem_nil _⟩

end Expectation

/-! ## Test cases and challenges -/

theorem Payload.ofJson?_val (payload : Payload) : Payload.ofJson? payload.1 = some payload :=
  dif_pos payload.2

theorem TestCase.ofJson?_toJson (case : TestCase) : ofJson? case.toJson = some case := by
  have hinput : Json.list? Payload.ofJson? (.arr (case.input.map Subtype.val)) = some case.input :=
    Json.list?_arr_map fun payload _ => Payload.ofJson?_val payload
  have hlisted : Json.Listed fieldNames
      [("input", .arr (case.input.map Subtype.val)), ("expected", case.expected.1)] :=
    List.Sublist.refl _
  unfold ofJson? toJson
  rw [Json.fields?_obj hlisted (by decide)]
  generalize Json.arr (case.input.map Subtype.val) = input at hinput ⊢
  simp [Fields.withDefault, List.lookup_cons, hinput, Payload.ofJson?_val]

theorem Challenge.ofJson?_toJson (challenge : Challenge) :
    ofJson? challenge.toJson = some challenge := by
  have hcases : Json.list? TestCase.ofJson? (.arr (challenge.testCases.map TestCase.toJson)) =
      some challenge.testCases :=
    Json.list?_arr_map fun case _ => case.ofJson?_toJson
  have hlisted : Json.Listed fieldNames [("id", .str challenge.id),
      ("testCases", .arr (challenge.testCases.map TestCase.toJson))] :=
    List.Sublist.refl _
  unfold ofJson? toJson
  rw [Json.fields?_obj hlisted (by decide)]
  simp [Fields.withDefault, List.lookup_cons, hcases, Json.string?]

/-! ## Settings and diagnostics -/

theorem Config.ofJson?_toJson (config : Config) : ofJson? config.toJson = some config := by
  have hlisted : Json.Listed fieldNames [("goalX", .ofWord config.goalX),
      ("jumpHeight", .ofWord config.jumpHeight), ("recordTrace", .bool config.recordTrace)] :=
    List.Sublist.refl _
  unfold ofJson? toJson
  rw [Json.fields?_obj hlisted (by decide)]
  simp [Fields.withDefault, List.lookup_cons, Json.word?_ofWord, Json.bool?]

theorem FaultCode.ofJson?_toJson (code : FaultCode) : ofJson? code.toJson = some code := by
  unfold ofJson? toJson
  rw [Json.halfWord?_ofNat]
  rfl

theorem FaultCategory.ofJson?_toJson (category : FaultCategory) :
    ofJson? category.toJson = some category := by
  cases category <;> rfl

theorem Diagnostic.ofJson?_toJson (d : Diagnostic) : ofJson? d.toJson = some d := by
  have hlisted : Json.Listed fieldNames ([("code", d.code.toJson),
      ("category", d.category.toJson), ("message", .str d.message)] ++
        Json.memberOf "blockId" Json.str d.block) :=
    (((Json.listed_memberOf ..).cons _).cons _).cons _
  unfold ofJson? toJson
  rw [Json.fields?_obj hlisted (by decide), Option.bind_eq_bind, Option.bind_some]
  generalize hmembers : [("code", d.code.toJson), ("category", d.category.toJson),
    ("message", Json.str d.message)] ++ Json.memberOf "blockId" Json.str d.block = members
  have hlookup : members.lookup "blockId" = d.block.map Json.str := by
    simp [← hmembers, List.lookup_cons, Json.lookup_memberOf]
  have hcode : Fields.required members "code" FaultCode.ofJson? = some d.code :=
    Fields.required_eq_some (j := d.code.toJson) (by simp [← hmembers]) d.code.ofJson?_toJson
  have hcategory : Fields.required members "category" FaultCategory.ofJson? = some d.category :=
    Fields.required_eq_some (j := d.category.toJson) (by simp [← hmembers, List.lookup_cons])
      d.category.ofJson?_toJson
  have hmessage : Fields.required members "message" Json.string? = some d.message :=
    Fields.required_eq_some (j := .str d.message) (by simp [← hmembers, List.lookup_cons]) rfl
  have hblock : Fields.optional members "blockId" Json.string? = some d.block :=
    Fields.optional_eq_some hlookup rfl fun _ _ => rfl
  rw [hcode, hcategory, hmessage, hblock]
  rfl

/-! ## All records -/

/-- Every storable record is read back from the value it is written as, and every
record that is read from a value in range is storable. -/
theorem read_back_stored :
    (∀ block : Block, block.Storable → Block.ofJson? block.toJson = some block) ∧
    (∀ node : Node, node.Storable → Node.ofJson? node.toJson = some node) ∧
    (∀ c : Character, Character.ofJson? c.toJson = some c) ∧
    (∀ o : Overrides, Overrides.ofJson? o.toJson = some o) ∧
    (∀ e : Expectation, e.Storable → Expectation.ofJson? e.toJson = some e) ∧
    (∀ case : TestCase, TestCase.ofJson? case.toJson = some case) ∧
    (∀ challenge : Challenge, Challenge.ofJson? challenge.toJson = some challenge) ∧
    (∀ config : Config, Config.ofJson? config.toJson = some config) ∧
    (∀ d : Diagnostic, Diagnostic.ofJson? d.toJson = some d) ∧
    ∀ j : Json, j.InRange →
      (∀ block : Block, Block.ofJson? j = some block → block.Storable) ∧
      (∀ node : Node, Node.ofJson? j = some node → node.Storable) ∧
      ∀ e : Expectation, Expectation.ofJson? j = some e → e.Storable := by
  refine ⟨fun _ => Block.ofJson?_toJson, fun _ => Node.ofJson?_toJson, Character.ofJson?_toJson,
    Overrides.ofJson?_toJson, fun _ => Expectation.ofJson?_toJson, TestCase.ofJson?_toJson,
    Challenge.ofJson?_toJson, Config.ofJson?_toJson, Diagnostic.ofJson?_toJson, fun j hj => ?_⟩
  exact ⟨fun _ => Block.storable_of_ofJson? hj, fun _ => Node.storable_of_ofJson? hj,
    fun _ => Expectation.storable_of_ofJson? hj⟩

/-- A nested node with tags outside of the catalog, and an expectation with the
largest word as a number. -/
theorem read_back_stored_unknown_tags :
    let node : Node :=
      ⟨{ tag := .known .loop, loopCount := some 2.5 },
        [⟨{ tag := .known .branch, condition := some (.unknown "wall") },
          [.leaf (.unknown "turn")]⟩]⟩
    let block : Block := { tag := .unknown "turn", loopCount := some (-0.5), id := "a" }
    let e : Expectation := { x := some 3, minY := some (-0.25), lastMessage := some "" }
    let j : Json := .obj [("x", .num (.int 9223372036854775807)), ("y", .null)]
    node.Storable ∧ Node.ofJson? node.toJson = some node ∧
      block.Storable ∧ Block.ofJson? block.toJson = some block ∧
      e.Storable ∧ Expectation.ofJson? e.toJson = some e ∧
      j.InRange ∧ ∃ e', Expectation.ofJson? j = some e' ∧ e'.Storable := by
  intro node block e j
  obtain ⟨hblocks, hnodes, -, -, hexpectations, -, -, -, -, hread⟩ := read_back_stored
  have hturn : (Tag.unknown "turn").Canonical := by decide
  have hwall : (Tag.unknown "wall").Canonical := by decide
  have hloop : Instruction.Storable { tag := .known .loop, loopCount := some 2.5 } := by
    refine ⟨Tag.canonical_known _, nofun, ?_⟩
    rintro x ⟨⟩
    decide
  have hbranch : Instruction.Storable
      { tag := .known .branch, condition := some (.unknown "wall") } := by
    refine ⟨Tag.canonical_known _, ?_, nofun⟩
    rintro tag ⟨⟩
    exact hwall
  have hleaf : (Node.leaf (.unknown "turn")).Storable :=
    (Node.storable_mk_iff ..).2 ⟨⟨hturn, nofun, nofun⟩, List.forall_mem_nil _⟩
  have hnode : node.Storable :=
    (Node.storable_mk_iff ..).2 ⟨hloop, List.forall_mem_singleton.2
      ((Node.storable_mk_iff ..).2 ⟨hbranch, List.forall_mem_singleton.2 hleaf⟩)⟩
  have hblock : block.Storable := by
    refine ⟨hturn, nofun, ?_⟩
    rintro x ⟨⟩
    decide
  have he : e.Storable := by decide
  have hj : j.InRange := .obj (List.forall_mem_cons.2
    ⟨.num ⟨by decide, by decide⟩, List.forall_mem_singleton.2 .null⟩)
  obtain ⟨e', he'⟩ : ∃ e', Expectation.ofJson? j = some e' := ⟨_, rfl⟩
  exact ⟨hnode, hnodes node hnode, hblock, hblocks block hblock, he, hexpectations e he, hj, e',
    he', (hread j hj).2.2 e' he'⟩

end Blockwise
