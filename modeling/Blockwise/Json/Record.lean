import Blockwise.Json.Basic

/-!
# Records in JSON

A record is stored as an object with a member for each of its fields. When it
is read strictly, members that belong to no field are passed over, even if they
are void, but no field may be given twice. A record may also be stored as an
array of its fields in their order; fields at the end may then be left out as
far as the record can do without them. `Json.fields?` brings both forms into
one: a list of the fields that are given, by name.

A field is then read as required, as optional, or with a default. Null stands
for an optional field that is absent; for all other fields it is a value like
any other.
-/

namespace Blockwise

/-- The fields of a record that are given, by name. -/
abbrev Fields := List (String × Json)

/-- The fields of a record, which has the given field names. In the array form
at least `least` of them are given. -/
def Json.fields? (names : List String) (least : Nat) : Json → Option Fields
  | .obj members =>
    let given := members.filter fun member => names.contains member.1
    if (given.map Prod.fst).Nodup then some given else none
  | .arr items =>
    if least ≤ items.length ∧ items.length ≤ names.length then some (names.zip items) else none
  | _ => none

namespace Fields

def required {α : Type} (fields : Fields) (name : String) (read : Json → Option α) :
    Option α :=
  (fields.lookup name).bind read

/-- A field that takes a default when it is not given. -/
def withDefault {α : Type} (fields : Fields) (name : String) (default : α)
    (read : Json → Option α) : Option α :=
  match fields.lookup name with
  | none => some default
  | some j => read j

def optional {α : Type} (fields : Fields) (name : String) (read : Json → Option α) :
    Option (Option α) :=
  match fields.lookup name with
  | none | some .null => some none
  | some j => (read j).map some

end Fields

namespace Json

/-- The member of an optional field, if it is present. -/
def memberOf {α : Type} (name : String) (write : α → Json) (field : Option α) :
    List (String × Json) :=
  match field with
  | none => []
  | some a => [(name, write a)]

/-- A number as JSON writes it: a double that is not finite has no JSON form. -/
def ofFloat (x : Float) : Json :=
  if x.isFinite then .num (.float x) else .null

def ofWord (n : Int64) : Json := .num (.int n.toInt)

def ofNat (n : Nat) : Json := .num (.int n)

/-- Reads a 64-bit word: an integer in range. -/
def word? : Json → Option Int64
  | .num (.int n) =>
    if Int64.minValue.toInt ≤ n ∧ n ≤ Int64.maxValue.toInt then some (.ofInt n) else none
  | _ => none

/-- Reads a 16-bit word without sign. -/
def halfWord? : Json → Option UInt16
  | .num (.int n) => if 0 ≤ n ∧ n < UInt16.size then some (.ofNat n.toNat) else none
  | _ => none

def bool? : Json → Option Bool
  | .bool b => some b
  | _ => none

def list? {α : Type} (read : Json → Option α) (j : Json) : Option (List α) :=
  j.items?.bind fun items => items.mapM read

/-- Reads one of finitely many named values: its name, or an object with the
name as its only key and the value null. -/
def named? {α : Type} (all : List α) (name : α → String) : Json → Option α
  | .str s => all.find? fun a => name a == s
  | .obj [(s, .null)] => all.find? fun a => name a == s
  | _ => none

/-! ## Parts are smaller than the whole -/

theorem sizeOf_lt_of_lookup {key : String} {members : List (String × Json)} {j : Json}
    (h : members.lookup key = some j) : sizeOf j < sizeOf members := by
  induction members with
  | nil => simp at h
  | cons member rest ih =>
    obtain ⟨name, value⟩ := member
    rw [List.lookup_cons] at h
    split at h
    · cases h
      simp +arith
    · have := ih h
      simp only [List.cons.sizeOf_spec]
      omega

theorem sizeOf_filter_le {α : Type} [SizeOf α] (keep : α → Bool) (xs : List α) :
    sizeOf (xs.filter keep) ≤ sizeOf xs := by
  induction xs with
  | nil => simp
  | cons x rest ih =>
    rw [List.filter_cons]
    split <;> simp only [List.cons.sizeOf_spec] <;> omega

theorem sizeOf_lt_of_lookup_zip {key : String} {names : List String} {items : List Json}
    {j : Json} (h : (names.zip items).lookup key = some j) : sizeOf j < sizeOf items := by
  induction names generalizing items with
  | nil => simp at h
  | cons name names ih =>
    cases items with
    | nil => simp at h
    | cons item items =>
      rw [List.zip_cons_cons, List.lookup_cons] at h
      split at h
      · cases h
        simp +arith
      · have := ih h
        simp only [List.cons.sizeOf_spec]
        omega

theorem sizeOf_lt_of_field {names : List String} {least : Nat} {record j : Json}
    {fields : Fields} {name : String} (hf : record.fields? names least = some fields)
    (hj : fields.lookup name = some j) : sizeOf j < sizeOf record := by
  cases record with
  | obj members =>
    simp only [fields?] at hf
    split at hf
    · cases hf
      have h₁ := sizeOf_lt_of_lookup hj
      have h₂ := sizeOf_filter_le (fun member => names.contains member.1) members
      simp only [Json.obj.sizeOf_spec]
      omega
    · cases hf
  | arr items =>
    simp only [fields?] at hf
    split at hf
    · cases hf
      have := sizeOf_lt_of_lookup_zip hj
      simp only [Json.arr.sizeOf_spec]
      omega
    · cases hf
  | null | bool | num | str | void => simp [fields?] at hf

theorem sizeOf_lt_of_items {j item : Json} {items : List Json} (h : j.items? = some items)
    (hi : item ∈ items) : sizeOf item < sizeOf j := by
  cases j with
  | arr own =>
    cases h
    have := List.sizeOf_lt_of_mem hi
    simp only [Json.arr.sizeOf_spec]
    omega
  | null | bool | num | str | obj | void => simp [items?] at h

end Json

end Blockwise
