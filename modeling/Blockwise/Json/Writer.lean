import Blockwise.Json.Basic
import Blockwise.Numeral.Shortest

/-!
# Writing JSON

`Json.render` writes a value without blanks. A double has its shortest digits;
it is positional from `0.00001` up to sixteen digits before the point, and then
always shows a fraction, so that it is read back as a double. What has no JSON
form is written as null: a double that is not finite, and a void part.
-/

namespace Blockwise.Json

def doubleStyle : DecimalStyle where
  positional e := -5 ≤ e && e ≤ 15
  marksWhole := true
  halfUp := false

def Number.render : Number → String
  | .int n => toString n
  | .float x => (doubleStyle.text? x).getD "null"

def hexChar (n : Nat) : Char := Nat.digitChar n

/-- A character inside a string: quotes, backslashes and control characters are
escaped, everything else stands for itself. -/
def escape (c : Char) : List Char :=
  if c = '"' then ['\\', '"']
  else if c = '\\' then ['\\', '\\']
  else if c = '\x08' then ['\\', 'b']
  else if c = '\x0c' then ['\\', 'f']
  else if c = '\n' then ['\\', 'n']
  else if c = '\r' then ['\\', 'r']
  else if c = '\t' then ['\\', 't']
  else if c.toNat < 0x20 then ['\\', 'u', '0', '0', hexChar (c.toNat / 16), hexChar (c.toNat % 16)]
  else [c]

def renderString (s : String) : String :=
  .ofList ('"' :: s.toList.flatMap escape ++ ['"'])

mutual

def render : Json → String
  | .null | .void => "null"
  | .bool b => if b then "true" else "false"
  | .num n => n.render
  | .str s => renderString s
  | .arr items => "[" ++ ",".intercalate (renderItems items) ++ "]"
  | .obj members => "\x7b" ++ ",".intercalate (renderMembers members) ++ "\x7d"

def renderItems : List Json → List String
  | [] => []
  | item :: rest => item.render :: renderItems rest

/-- The texts of the members of an object; one that is hidden by a later one is
left out. -/
def renderMembers : List (String × Json) → List String
  | [] => []
  | (key, value) :: rest =>
    if (rest.lookup key).isSome then renderMembers rest
    else (renderString key ++ ":" ++ value.render) :: renderMembers rest

end

end Blockwise.Json
