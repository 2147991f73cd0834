import Blockwise.Json.Token

/-!
# Reading JSON

`Json.ofString?` reads a text as a single value. It goes through the tokens one
by one and keeps the arrays and objects that have been begun, the innermost
first. A text that is not well formed is refused. An array or an object that
lies deeper than a limit is void, and so is an object with a key that has no
value.
-/

namespace Blockwise.Json

/-- How many arrays and objects may lie in each other, unless another limit is
given. -/
def maxDepth : Nat := 127

/-- An array or object that has been begun: what it holds so far, the latest
first, and for an object the key of the value that is read next. -/
inductive Container where
  | array (items : List Json)
  | object (members : List (Option String × Json)) (key : Option String)

/-- What may come next. -/
inductive Expectancy where
  /-- A value. -/
  | value
  /-- A value, or the end of an array that has no items yet. -/
  | firstItem
  /-- A key. -/
  | key
  /-- A key, or the end of an object that has no members yet. -/
  | firstKey
  /-- The colon behind a key. -/
  | colon
  /-- A comma or the end of the innermost container. -/
  | separator
  /-- Nothing: the value is complete. -/
  | nothing (result : Json)

structure ReaderState where
  containers : List Container := []
  expected : Expectancy := .value

namespace ReaderState

/-- Puts a complete value where it belongs. -/
def deliver (j : Json) : List Container → ReaderState
  | [] => ⟨[], .nothing j⟩
  | .array items :: outer => ⟨.array (j :: items) :: outer, .separator⟩
  | .object members key :: outer => ⟨.object ((key, j) :: members) none :: outer, .separator⟩

/-- The value of a container that is ended inside of `depth` others, when at most
`limit` may lie in each other. -/
def complete (limit depth : Nat) : Container → Json
  | .array items => if depth < limit then .arr items.reverse else .void
  | .object members _ =>
    match members.reverse.mapM fun member => member.1.map fun key => (key, member.2) with
    | some members => if depth < limit then .obj members else .void
    | none => .void

def close (limit : Nat) (container : Container) (outer : List Container) : ReaderState :=
  deliver (complete limit outer.length container) outer

def takeValue (containers : List Container) : Token → Option ReaderState
  | .value j => some (deliver j containers)
  | .text (some s) => some (deliver (.str s) containers)
  | .text none => some (deliver .void containers)
  | .openArray => some ⟨.array [] :: containers, .firstItem⟩
  | .openObject => some ⟨.object [] none :: containers, .firstKey⟩
  | _ => none

def takeKey : List Container → Token → Option ReaderState
  | .object members _ :: outer, .text key => some ⟨.object members key :: outer, .colon⟩
  | _, _ => none

def takeSeparator (limit : Nat) : List Container → Token → Option ReaderState
  | .array items :: outer, .closeArray => some (close limit (.array items) outer)
  | .array items :: outer, .comma => some ⟨.array items :: outer, .value⟩
  | .object members key :: outer, .closeObject => some (close limit (.object members key) outer)
  | .object members key :: outer, .comma => some ⟨.object members key :: outer, .key⟩
  | _, _ => none

def step (limit : Nat) (s : ReaderState) (token : Token) : Option ReaderState :=
  match s.expected, token with
  | .firstItem, .closeArray => takeSeparator limit s.containers token
  | .firstKey, .closeObject => takeSeparator limit s.containers token
  | .value, _ | .firstItem, _ => takeValue s.containers token
  | .key, _ | .firstKey, _ => takeKey s.containers token
  | .colon, .colon => some ⟨s.containers, .value⟩
  | .separator, _ => takeSeparator limit s.containers token
  | _, _ => none

def result? (s : ReaderState) : Option Json :=
  match s.expected with
  | .nothing result => some result
  | _ => none

end ReaderState

def ofString? (text : String) (limit : Nat := maxDepth) : Option Json := do
  let tokens ← tokens? text.toList
  let final ← tokens.foldlM (ReaderState.step limit) {}
  final.result?

/-- The value of a JSON text of unknown quality: whatever has no value counts as
null. -/
def ofStringOrNull (text : String) : Json :=
  match ofString? text with
  | some j => if j.isReadable then j else .null
  | none => .null

end Blockwise.Json
