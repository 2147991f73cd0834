import Blockwise.Character.Overrides
import Blockwise.Json.Record
import Blockwise.Numeral.Binary64

/-!
# The character in JSON

All parts of a state are stored; of overrides only those that are there.

Overrides also come from challenges, which are not trusted to be well formed.
They are then read leniently: from any object, what can be used is taken and
the rest is ignored. A number that is not a word is rounded to the nearest
integer and moved into range.
-/

namespace Blockwise

namespace Character

def fieldNames : List String :=
  ["x", "y", "moveTotal", "maxY", "minY", "jumpCount", "messages"]

def messagesToJson (messages : List String) : Json := .arr (messages.map Json.str)

def messagesOfJson? : Json → Option (List String) := Json.list? Json.string?

def toJson (c : Character) : Json :=
  .obj [("x", .ofWord c.x), ("y", .ofWord c.y), ("moveTotal", .ofWord c.moveTotal),
    ("maxY", .ofWord c.maxY), ("minY", .ofWord c.minY), ("jumpCount", .ofWord c.jumpCount),
    ("messages", messagesToJson c.messages)]

def ofJson? (j : Json) : Option Character := do
  let fields ← j.fields? fieldNames 0
  let x ← fields.required "x" Json.word?
  let y ← fields.required "y" Json.word?
  let moveTotal ← fields.required "moveTotal" Json.word?
  let maxY ← fields.required "maxY" Json.word?
  let minY ← fields.required "minY" Json.word?
  let jumpCount ← fields.required "jumpCount" Json.word?
  let messages ← fields.required "messages" messagesOfJson?
  some { x, y, moveTotal, maxY, minY, jumpCount, messages }

end Character

namespace Overrides

def toJson (o : Overrides) : Json :=
  .obj (Json.memberOf "x" Json.ofWord o.x ++ Json.memberOf "y" Json.ofWord o.y ++
    Json.memberOf "moveTotal" Json.ofWord o.moveTotal ++ Json.memberOf "maxY" Json.ofWord o.maxY ++
    Json.memberOf "minY" Json.ofWord o.minY ++ Json.memberOf "jumpCount" Json.ofWord o.jumpCount ++
    Json.memberOf "messages" Character.messagesToJson o.messages)

def ofJson? (j : Json) : Option Overrides := do
  let fields ← j.fields? Character.fieldNames 0
  let x ← fields.optional "x" Json.word?
  let y ← fields.optional "y" Json.word?
  let moveTotal ← fields.optional "moveTotal" Json.word?
  let maxY ← fields.optional "maxY" Json.word?
  let minY ← fields.optional "minY" Json.word?
  let jumpCount ← fields.optional "jumpCount" Json.word?
  let messages ← fields.optional "messages" Character.messagesOfJson?
  some { x, y, moveTotal, maxY, minY, jumpCount, messages }

/-- Takes a word from a number that may not be one. -/
def lenientWord? (j : Json) : Option Int64 :=
  match j.word? with
  | some n => some n
  | none => (j.float?.bind Binary64.round?).map Int64.ofIntClamp

/-- Takes the strings from an array that may also hold something else. -/
def lenientMessages? (j : Json) : Option (List String) :=
  j.items?.map fun items => items.filterMap Json.string?

/-- Reads overrides leniently. Only what is no object is refused. -/
def ofLenient? (j : Json) : Option Overrides :=
  j.members?.map fun members =>
    let word (name : String) := (Json.memberOf? name members).bind lenientWord?
    { x := word "x"
      y := word "y"
      moveTotal := word "moveTotal"
      maxY := word "maxY"
      minY := word "minY"
      jumpCount := word "jumpCount"
      messages := (Json.memberOf? "messages" members).bind lenientMessages? }

end Overrides

end Blockwise
