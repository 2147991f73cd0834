import Blockwise.Challenge.Expectation
import Blockwise.Character.Json

/-!
# Challenges

A challenge is a list of test cases. A test case is authored by somebody else:
its two halves are kept as the JSON values they are, and are read leniently
when they are needed. The first entry of the input may override parts of the
first state, and the other half may be an expectation.
-/

namespace Blockwise

structure TestCase where
  input : List Payload := []
  expected : Payload := ⟨.null, Json.readable_null⟩

structure Challenge where
  id : String := ""
  testCases : List TestCase := []

namespace Expectation

/-- Reads an expectation leniently: parts of the wrong type are ignored, and
only what is no object is refused. -/
def ofLenient? (j : Json) : Option Expectation :=
  j.members?.map fun members =>
    let number (name : String) := (Json.memberOf? name members).bind Json.float?
    let text (name : String) := (Json.memberOf? name members).bind Json.string?
    { x := number "x"
      y := number "y"
      moveTotal := number "moveTotal"
      jumpCount := number "jumpCount"
      maxY := number "maxY"
      minY := number "minY"
      messageIncludes := text "messageIncludes"
      lastMessage := text "lastMessage" }

end Expectation

theorem Overrides.readable_toJson (o : Overrides) : o.toJson.Readable := by
  rcases o with ⟨x, y, moveTotal, maxY, minY, jumpCount, messages⟩
  cases x <;> cases y <;> cases moveTotal <;> cases maxY <;> cases minY <;> cases jumpCount <;>
    cases messages <;>
    simp [Overrides.toJson, Json.memberOf, Json.Readable, Json.isReadable, Json.membersReadable,
      Json.ofWord, Character.messagesToJson, Json.areReadable_iff]

namespace TestCase

/-- The test case with the given overrides and expectation. -/
def ofOverrides (o : Option Overrides) (expected : Payload) : TestCase :=
  { input := o.toList.map fun o => ⟨o.toJson, o.readable_toJson⟩
    expected }

/-- The overrides of a test case: those of the first input, if it has one. -/
def overrides (case : TestCase) : Option Overrides :=
  case.input.head?.bind fun input => Overrides.ofLenient? input.1

def expectation (case : TestCase) : Option Expectation :=
  Expectation.ofLenient? case.expected.1

end TestCase

end Blockwise
