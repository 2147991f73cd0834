/-!
# JSON values

A JSON value as it is read from a text. A number is an integer or a double,
depending on how it was written. An object keeps its members in the order in
which they were written, and a later member hides an earlier one with the same
key (`Json.get?`).

Not every well-formed text has a value: a number may be larger than every
double, a string may hold half of a surrogate pair, and arrays and objects may
be nested too deeply. Such a part is kept as `void`, so that the rest of the
text can still be read by those who do not need that part. A value without any
such part is `Readable`.
-/

namespace Blockwise

/-- A JSON number: an integer, or a double. -/
inductive Json.Number where
  | int (n : Int)
  | float (x : Float)
deriving DecidableEq

inductive Json where
  | null
  | bool (b : Bool)
  | num (n : Json.Number)
  | str (s : String)
  | arr (items : List Json)
  | obj (members : List (String × Json))
  /-- A part that is well formed and has no value. -/
  | void

namespace Json

/-- The double that a number stands for; an integer is rounded to the nearest. -/
def Number.toFloat : Number → Float
  | .int n => .ofInt n
  | .float x => x

def string? : Json → Option String
  | .str s => some s
  | _ => none

def float? : Json → Option Float
  | .num n => some n.toFloat
  | _ => none

def items? : Json → Option (List Json)
  | .arr items => some items
  | _ => none

def members? : Json → Option (List (String × Json))
  | .obj members => some members
  | _ => none

/-- The value under a key in a list of members; the last one counts. -/
def memberOf? (key : String) (members : List (String × Json)) : Option Json :=
  members.reverse.lookup key

def get? (key : String) (j : Json) : Option Json :=
  j.members?.bind (memberOf? key)

mutual

def isReadable : Json → Bool
  | .null | .bool _ | .num _ | .str _ => true
  | .arr items => areReadable items
  | .obj members => membersReadable members
  | .void => false

def areReadable : List Json → Bool
  | [] => true
  | item :: rest => item.isReadable && areReadable rest

def membersReadable : List (String × Json) → Bool
  | [] => true
  | (_, value) :: rest => value.isReadable && membersReadable rest

end

/-- A value without any void part. -/
def Readable (j : Json) : Prop := j.isReadable = true

instance (j : Json) : Decidable j.Readable := by
  unfold Readable
  infer_instance

theorem readable_null : null.Readable := rfl

theorem areReadable_iff (items : List Json) :
    areReadable items = true ↔ ∀ item ∈ items, item.Readable := by
  induction items with
  | nil => simp [areReadable]
  | cons item rest ih => simp [areReadable, Readable, ih]

end Json

/-- A value that can be handed on as it is. -/
abbrev Payload := { j : Json // j.Readable }

end Blockwise
