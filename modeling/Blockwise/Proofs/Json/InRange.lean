import Blockwise.Json.Record
import Blockwise.Proofs.Numeral.Finite

/-!
# Values in range

A JSON value is in range if each of its numbers is a 64-bit integer, signed or
not, or a finite double. A JSON text has no other numbers, and so every value that
is read from one is in range (`Json.inRange_of_ofString?`). Every double that is
taken from a value in range is finite (`isFinite_of_float?`), and the parts of
what is in range are in range.
-/

namespace Blockwise.Json

/-- A 64-bit integer, signed or not, or a finite double. -/
def Number.InRange : Number → Prop
  | .int n => -2 ^ 63 ≤ n ∧ n < 2 ^ 64
  | .float x => x.isFinite = true

/-- All numbers of the value are in range. -/
inductive InRange : Json → Prop
  | null : InRange .null
  | bool (b : Bool) : InRange (.bool b)
  | num {n : Number} (number : n.InRange) : InRange (.num n)
  | str (s : String) : InRange (.str s)
  | arr {items : List Json} (items_inRange : ∀ item ∈ items, item.InRange) : InRange (.arr items)
  | obj {members : List (String × Json)}
      (members_inRange : ∀ member ∈ members, member.2.InRange) : InRange (.obj members)
  | void : InRange .void

theorem Number.InRange.isFinite_toFloat {n : Number} (h : n.InRange) :
    n.toFloat.isFinite = true := by
  cases n with
  | int n => exact Binary64.isFinite_ofInt h.1 h.2
  | float x => exact h

theorem isFinite_of_float? {j : Json} {x : Float} (h : j.InRange) (hx : j.float? = some x) :
    x.isFinite = true := by
  cases h with
  | num number => cases hx; exact number.isFinite_toFloat
  | null | bool | str | arr | obj | void => cases hx

theorem InRange.of_mem_arr {items : List Json} (h : (Json.arr items).InRange) :
    ∀ item ∈ items, item.InRange := by
  cases h with
  | arr items_inRange => exact items_inRange

theorem InRange.of_mem_obj {members : List (String × Json)} (h : (Json.obj members).InRange) :
    ∀ member ∈ members, member.2.InRange := by
  cases h with
  | obj members_inRange => exact members_inRange

theorem mem_of_lookup_eq_some {members : List (String × Json)} {name : String} {j : Json}
    (h : members.lookup name = some j) : (name, j) ∈ members := by
  obtain ⟨before, after, rfl, -⟩ := List.lookup_eq_some_iff.1 h
  exact List.mem_append_right _ List.mem_cons_self

theorem InRange.of_memberOf? {members : List (String × Json)} (h : (Json.obj members).InRange)
    {name : String} {j : Json} (hj : memberOf? name members = some j) : j.InRange :=
  h.of_mem_obj _ (List.mem_reverse.1 (mem_of_lookup_eq_some hj))

/-- The fields of a record in range are in range, in either form of the record. -/
theorem InRange.of_lookup {record : Json} (h : record.InRange) {names : List String}
    {least : Nat} {fields : Fields} (hfields : record.fields? names least = some fields)
    {name : String} {j : Json} (hj : fields.lookup name = some j) : j.InRange := by
  have hmem := mem_of_lookup_eq_some hj
  cases h with
  | obj members_inRange =>
    simp only [fields?] at hfields
    split at hfields
    · cases hfields
      exact members_inRange _ (List.mem_filter.1 hmem).1
    · cases hfields
  | arr items_inRange =>
    simp only [fields?] at hfields
    split at hfields
    · cases hfields
      exact items_inRange _ (List.of_mem_zip hmem).2
    · cases hfields
  | null | bool | num | str | void => cases hfields

end Blockwise.Json
