import Blockwise.Challenge.Basic
import Blockwise.Proofs.Json.Stored

/-!
# Lenient reading

Overrides and expectations are read in two ways: strictly, when one of them is
stored on its own, and leniently, when it is a part of a test case. An object
that can be read strictly gives the same record leniently
(`ofLenient?_of_ofJson?`), and so what was written into a test case is found
there again.
-/

namespace Blockwise

/-- Each field that the strict reader finds under a name is the one that is taken
leniently from the members of the same object. -/
theorem Fields.memberOf?_bind_eq {α : Type} {read lenient : Json → Option α}
    {names : List String} {members : List (String × Json)} {fields : Fields}
    (hfields : (Json.obj members).fields? names 0 = some fields)
    (hnull : lenient .null = none) (hlenient : ∀ j a, read j = some a → lenient j = some a)
    {name : String} (hname : name ∈ names) {field : Option α}
    (h : fields.optional name read = some field) :
    (Json.memberOf? name members).bind lenient = field := by
  rw [Json.memberOf?_eq_lookup hfields hname]
  exact bind_eq_of_optional h hnull hlenient

namespace Overrides

theorem lenientWord?_of_word? (j : Json) (n : Int64) (h : j.word? = some n) :
    lenientWord? j = some n := by
  simp only [lenientWord?, h]

/-- Nothing is left out of a list of strings. -/
theorem lenientMessages?_of_messagesOfJson? (j : Json) (texts : List String)
    (h : Character.messagesOfJson? j = some texts) : lenientMessages? j = some texts := by
  obtain ⟨items, rfl, hitems⟩ := Json.list?_eq_some_iff.1 h
  exact congrArg some (filterMap_eq_of_mapM hitems)

theorem ofLenient?_of_ofJson? {members : List (String × Json)} {o : Overrides}
    (h : ofJson? (.obj members) = some o) : ofLenient? (.obj members) = some o := by
  obtain ⟨fields, hfields, h⟩ := Option.bind_eq_some_iff.1 h
  obtain ⟨x, hx, h⟩ := Option.bind_eq_some_iff.1 h
  obtain ⟨y, hy, h⟩ := Option.bind_eq_some_iff.1 h
  obtain ⟨moveTotal, hmoveTotal, h⟩ := Option.bind_eq_some_iff.1 h
  obtain ⟨maxY, hmaxY, h⟩ := Option.bind_eq_some_iff.1 h
  obtain ⟨minY, hminY, h⟩ := Option.bind_eq_some_iff.1 h
  obtain ⟨jumpCount, hjumpCount, h⟩ := Option.bind_eq_some_iff.1 h
  obtain ⟨messages, hmessages, h⟩ := Option.bind_eq_some_iff.1 h
  cases h
  have hword {name : String} {field : Option Int64} (hname : name ∈ Character.fieldNames)
      (hread : fields.optional name Json.word? = some field) :
      (Json.memberOf? name members).bind lenientWord? = field :=
    Fields.memberOf?_bind_eq hfields rfl lenientWord?_of_word? hname hread
  have htexts : (Json.memberOf? "messages" members).bind lenientMessages? = messages :=
    Fields.memberOf?_bind_eq hfields rfl lenientMessages?_of_messagesOfJson? (by decide) hmessages
  simp only [ofLenient?, Json.members?, Option.map_some, hword (by decide) hx,
    hword (by decide) hy, hword (by decide) hmoveTotal, hword (by decide) hmaxY,
    hword (by decide) hminY, hword (by decide) hjumpCount, htexts]

end Overrides

namespace Expectation

theorem ofLenient?_of_ofJson? {members : List (String × Json)} {e : Expectation}
    (h : ofJson? (.obj members) = some e) : ofLenient? (.obj members) = some e := by
  obtain ⟨fields, hfields, h⟩ := Option.bind_eq_some_iff.1 h
  obtain ⟨x, hx, h⟩ := Option.bind_eq_some_iff.1 h
  obtain ⟨y, hy, h⟩ := Option.bind_eq_some_iff.1 h
  obtain ⟨moveTotal, hmoveTotal, h⟩ := Option.bind_eq_some_iff.1 h
  obtain ⟨jumpCount, hjumpCount, h⟩ := Option.bind_eq_some_iff.1 h
  obtain ⟨maxY, hmaxY, h⟩ := Option.bind_eq_some_iff.1 h
  obtain ⟨minY, hminY, h⟩ := Option.bind_eq_some_iff.1 h
  obtain ⟨messageIncludes, hincludes, h⟩ := Option.bind_eq_some_iff.1 h
  obtain ⟨lastMessage, hlast, h⟩ := Option.bind_eq_some_iff.1 h
  cases h
  have hnumber {name : String} {field : Option Float} (hname : name ∈ fieldNames)
      (hread : fields.optional name Json.float? = some field) :
      (Json.memberOf? name members).bind Json.float? = field :=
    Fields.memberOf?_bind_eq hfields rfl (fun _ _ h => h) hname hread
  have htext {name : String} {field : Option String} (hname : name ∈ fieldNames)
      (hread : fields.optional name Json.string? = some field) :
      (Json.memberOf? name members).bind Json.string? = field :=
    Fields.memberOf?_bind_eq hfields rfl (fun _ _ h => h) hname hread
  simp only [ofLenient?, Json.members?, Option.map_some, hnumber (by decide) hx,
    hnumber (by decide) hy, hnumber (by decide) hmoveTotal, hnumber (by decide) hjumpCount,
    hnumber (by decide) hmaxY, hnumber (by decide) hminY, htext (by decide) hincludes,
    htext (by decide) hlast]

end Expectation

theorem TestCase.overrides_ofOverrides (o : Overrides) (expected : Payload) :
    (ofOverrides (some o) expected).overrides = some o :=
  Overrides.ofLenient?_of_ofJson? o.ofJson?_toJson

/-- The lenient readers give what the strict ones give on every object that these
accept. Overrides are found again in the test case that was made from them, and
an expectation in the value it is written as. -/
theorem lenient_extends_strict :
    (∀ (members : List (String × Json)) (o : Overrides),
      Overrides.ofJson? (.obj members) = some o → Overrides.ofLenient? (.obj members) = some o) ∧
    (∀ (members : List (String × Json)) (e : Expectation),
      Expectation.ofJson? (.obj members) = some e →
        Expectation.ofLenient? (.obj members) = some e) ∧
    (∀ (o : Overrides) (expected : Payload),
      (TestCase.ofOverrides (some o) expected).overrides = some o) ∧
    ∀ e : Expectation, e.Storable → Expectation.ofLenient? e.toJson = some e :=
  ⟨fun _ _ => Overrides.ofLenient?_of_ofJson?, fun _ _ => Expectation.ofLenient?_of_ofJson?,
    TestCase.overrides_ofOverrides,
    fun _ he => Expectation.ofLenient?_of_ofJson? (Expectation.ofJson?_toJson he)⟩

/-- An object with the largest word, a null and members that belong to neither record. -/
theorem lenient_extends_strict_largest_word :
    let members : List (String × Json) :=
      [("x", .num (.int 9223372036854775807)), ("y", .null), ("speed", .str "high"),
        ("messages", .arr [.str "Hi", .str ""])]
    let o : Overrides := { x := some 9223372036854775807, messages := some ["Hi", ""] }
    let e : Expectation := { x := some 9223372036854775808 }
    Overrides.ofJson? (.obj members) = some o ∧ Overrides.ofLenient? (.obj members) = some o ∧
      Expectation.ofJson? (.obj members) = some e ∧
      Expectation.ofLenient? (.obj members) = some e ∧
      e.Storable ∧ Expectation.ofLenient? e.toJson = some e := by
  intro members o e
  obtain ⟨hoverrides, hexpectations, -, hwritten⟩ := lenient_extends_strict
  have ho : Overrides.ofJson? (.obj members) = some o := by decide
  have he : Expectation.ofJson? (.obj members) = some e := by decide
  have hstorable : e.Storable := by decide
  exact ⟨ho, hoverrides members o ho, he, hexpectations members e he, hstorable,
    hwritten e hstorable⟩

end Blockwise
