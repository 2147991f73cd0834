import Blockwise.Challenge.Report
import Blockwise.Run.Json

/-!
# Challenges and reports in JSON

Of an expectation only the parts that are there are stored. The two halves of a
test case are stored as the values they are, and so they have to be readable. A
result is stored without a state and without a trace when it has none.
-/

namespace Blockwise

namespace Expectation

def toJson (e : Expectation) : Json :=
  .obj (Json.memberOf "x" Json.ofFloat e.x ++ Json.memberOf "y" Json.ofFloat e.y ++
    Json.memberOf "moveTotal" Json.ofFloat e.moveTotal ++
    Json.memberOf "jumpCount" Json.ofFloat e.jumpCount ++
    Json.memberOf "maxY" Json.ofFloat e.maxY ++ Json.memberOf "minY" Json.ofFloat e.minY ++
    Json.memberOf "messageIncludes" Json.str e.messageIncludes ++
    Json.memberOf "lastMessage" Json.str e.lastMessage)

def fieldNames : List String :=
  ["x", "y", "moveTotal", "jumpCount", "maxY", "minY", "messageIncludes", "lastMessage"]

def ofJson? (j : Json) : Option Expectation := do
  let fields ← j.fields? fieldNames 0
  let x ← fields.optional "x" Json.float?
  let y ← fields.optional "y" Json.float?
  let moveTotal ← fields.optional "moveTotal" Json.float?
  let jumpCount ← fields.optional "jumpCount" Json.float?
  let maxY ← fields.optional "maxY" Json.float?
  let minY ← fields.optional "minY" Json.float?
  let messageIncludes ← fields.optional "messageIncludes" Json.string?
  let lastMessage ← fields.optional "lastMessage" Json.string?
  some { x, y, moveTotal, jumpCount, maxY, minY, messageIncludes, lastMessage }

end Expectation

/-- Takes a value as it is, if all of it is readable. -/
def Payload.ofJson? (j : Json) : Option Payload :=
  if h : j.Readable then some ⟨j, h⟩ else none

namespace TestCase

def toJson (case : TestCase) : Json :=
  .obj [("input", .arr (case.input.map Subtype.val)), ("expected", case.expected.1)]

def fieldNames : List String := ["input", "expected"]

def ofJson? (j : Json) : Option TestCase := do
  let fields ← j.fields? fieldNames 0
  let input ← fields.withDefault "input" [] (Json.list? Payload.ofJson?)
  let expected ← fields.withDefault "expected" ⟨.null, Json.readable_null⟩ Payload.ofJson?
  some { input, expected }

end TestCase

namespace Challenge

def toJson (challenge : Challenge) : Json :=
  .obj [("id", .str challenge.id),
    ("testCases", .arr (challenge.testCases.map TestCase.toJson))]

def fieldNames : List String := ["id", "testCases"]

def ofJson? (j : Json) : Option Challenge := do
  let fields ← j.fields? fieldNames 0
  let id ← fields.withDefault "id" "" Json.string?
  let testCases ← fields.withDefault "testCases" [] (Json.list? TestCase.ofJson?)
  some { id, testCases }

end Challenge

def Status.toJson (status : Status) : Json := .str status.name

def Status.ofJson? : Json → Option Status := Json.named? Status.all Status.name

def CaseLabel.toJson : CaseLabel → Json
  | .ordinal n => .ofNat n
  | .unconstrained => .str "-"

def CaseResult.toJson (result : CaseResult) : Json :=
  .obj ([("status", result.status.toJson), ("message", .str result.message),
      ("testCase", result.label.toJson)] ++
    Json.memberOf "state" Character.toJson result.state ++
    Json.memberOf "trace" Character.traceToJson result.trace)

def Report.toJson (report : Report) : Json :=
  .obj [("results", .arr (report.results.map CaseResult.toJson)), ("error", .str report.banner)]

end Blockwise
