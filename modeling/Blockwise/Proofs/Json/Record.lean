import Mathlib.Data.List.Forall2
import Blockwise.Json.Record

/-!
# Laws of records

A record is written as an object whose members are some of its fields, in order
(`Json.Listed`); all of them are then given when it is read (`fields?_obj`), and
each is found under its name. So a record is read back as soon as its fields are
(`Fields.required_eq_some`, `Fields.optional_eq_some`).

If an object can be read as a record at all, a field has the same value whether
the first or the last member with its name counts (`memberOf?_eq_lookup`): no
field is given twice.
-/

namespace Blockwise

theorem mapM_eq_some_iff {α β : Type} {f : α → Option β} {xs : List α} {ys : List β} :
    xs.mapM f = some ys ↔ List.Forall₂ (fun x y => f x = some y) xs ys := by
  induction xs generalizing ys with
  | nil => simp [eq_comm]
  | cons x xs ih =>
    rw [List.mapM_cons, List.forall₂_cons_left_iff]
    constructor
    · intro h
      obtain ⟨y, hy, h⟩ := Option.bind_eq_some_iff.1 h
      obtain ⟨rest, hrest, h⟩ := Option.bind_eq_some_iff.1 h
      cases h
      exact ⟨y, rest, hy, ih.1 hrest, rfl⟩
    · rintro ⟨y, rest, hy, hrest, rfl⟩
      rw [hy, ih.2 hrest]
      rfl

/-- If each item of a list gives something, none of them is left out. -/
theorem filterMap_eq_of_mapM {α β : Type} {f : α → Option β} {xs : List α} {ys : List β}
    (h : xs.mapM f = some ys) : xs.filterMap f = ys := by
  induction mapM_eq_some_iff.1 h with
  | nil => rfl
  | cons hread hrest ih => rw [List.filterMap_cons_some hread, ih (mapM_eq_some_iff.2 hrest)]

namespace Json

/-! ## Values -/

theorem word?_ofWord (n : Int64) : (ofWord n).word? = some n := by
  have hrange : Int64.minValue.toInt ≤ n.toInt ∧ n.toInt ≤ Int64.maxValue.toInt :=
    ⟨n.minValue_le_toInt, n.toInt_le⟩
  rw [ofWord, word?, if_pos hrange, Int64.ofInt_toInt]

theorem halfWord?_ofNat (n : UInt16) : (ofNat n.toNat).halfWord? = some n := by
  have hrange : (0 : Int) ≤ n.toNat ∧ (n.toNat : Int) < UInt16.size :=
    ⟨Int.natCast_nonneg _, Int.ofNat_lt.2 n.toNat_lt⟩
  rw [ofNat, halfWord?, if_pos hrange, Int.toNat_natCast, UInt16.ofNat_toNat]

theorem float?_ofFloat {x : Float} (h : x.isFinite = true) : (ofFloat x).float? = some x := by
  rw [ofFloat, if_pos h]
  rfl

theorem list?_eq_some_iff {α : Type} {read : Json → Option α} {j : Json} {xs : List α} :
    list? read j = some xs ↔ ∃ items, j = .arr items ∧ items.mapM read = some xs := by
  constructor
  · intro h
    obtain ⟨items, hitems, h⟩ := Option.bind_eq_some_iff.1 h
    cases j with
    | arr own => cases hitems; exact ⟨items, rfl, h⟩
    | null | bool | num | str | obj | void => cases hitems
  · rintro ⟨items, rfl, h⟩
    exact h

/-- What a list that was read holds was read from an item of the array. -/
theorem exists_of_mem_list? {α : Type} {read : Json → Option α} {j : Json} {xs : List α} {x : α}
    (h : list? read j = some xs) (hx : x ∈ xs) :
    ∃ items, j = .arr items ∧ ∃ item ∈ items, read item = some x := by
  obtain ⟨items, hj, hitems⟩ := list?_eq_some_iff.1 h
  rw [← filterMap_eq_of_mapM hitems] at hx
  exact ⟨items, hj, List.mem_filterMap.1 hx⟩

theorem list?_arr_map {α : Type} {read : Json → Option α} {write : α → Json} {xs : List α}
    (h : ∀ x ∈ xs, read (write x) = some x) : list? read (.arr (xs.map write)) = some xs :=
  mapM_eq_some_iff.2 (List.forall₂_map_left_iff.2 (List.forall₂_same.2 h))

/-! ## Members -/

/-- The members have some of the given names, in order, and none of them twice. -/
def Listed (names : List String) (members : List (String × Json)) : Prop :=
  (members.map Prod.fst).Sublist names

theorem listed_singleton (name : String) (j : Json) : Listed [name] [(name, j)] :=
  List.Sublist.refl [name]

theorem listed_memberOf {α : Type} (name : String) (write : α → Json) (field : Option α) :
    Listed [name] (memberOf name write field) := by
  cases field with
  | none => exact List.nil_sublist [name]
  | some a => exact List.Sublist.refl [name]

theorem Listed.append {names₁ names₂ : List String} {p q : List (String × Json)}
    (hp : Listed names₁ p) (hq : Listed names₂ q) : Listed (names₁ ++ names₂) (p ++ q) := by
  unfold Listed
  rw [List.map_append]
  exact List.Sublist.append hp hq

theorem Listed.cons {name : String} {names : List String} {members : List (String × Json)}
    (j : Json) (h : Listed names members) : Listed (name :: names) ((name, j) :: members) :=
  (listed_singleton name j).append h

/-- What is written as a record has all of its members as fields. -/
theorem fields?_obj {names : List String} {members : List (String × Json)}
    (h : Listed names members) (hnames : names.Nodup) (least : Nat) :
    (obj members).fields? names least = some members := by
  have hgiven : members.filter (fun member => names.contains member.1) = members := by
    refine List.filter_eq_self.2 fun member hmember => ?_
    exact List.contains_iff_mem.2 (h.subset (List.mem_map_of_mem hmember))
  simp only [fields?, hgiven]
  exact if_pos (hnames.sublist h)

theorem lookup_memberOf {α : Type} (key name : String) (write : α → Json) (field : Option α) :
    (memberOf name write field).lookup key = if key = name then field.map write else none := by
  cases field with
  | none => simp [memberOf]
  | some a =>
    by_cases h : key = name
    · subst h
      rw [memberOf, List.lookup_cons_self, if_pos rfl, Option.map_some]
    · rw [memberOf, List.lookup_cons, beq_false_of_ne h, List.lookup_nil, if_neg h]

theorem lookup_filter (keep : String → Bool) {key : String} (hkeep : keep key = true)
    (members : List (String × Json)) :
    (members.filter fun member => keep member.1).lookup key = members.lookup key := by
  induction members with
  | nil => rfl
  | cons member rest ih =>
    obtain ⟨name, j⟩ := member
    rw [List.filter_cons]
    by_cases hname : key = name
    · subst hname
      rw [if_pos hkeep, List.lookup_cons_self, List.lookup_cons_self]
    · have hne : (key == name) = false := beq_false_of_ne hname
      split
      · rw [List.lookup_cons, List.lookup_cons, hne, ih]
      · rw [List.lookup_cons, hne, ih]

theorem lookup_reverse {members : List (String × Json)} (h : (members.map Prod.fst).Nodup)
    (key : String) : members.reverse.lookup key = members.lookup key := by
  induction members with
  | nil => rfl
  | cons member rest ih =>
    obtain ⟨name, j⟩ := member
    obtain ⟨hname, hrest⟩ := List.nodup_cons.1 h
    rw [List.reverse_cons, List.lookup_append, ih hrest, List.lookup_cons, List.lookup_cons]
    by_cases hkey : key = name
    · subst hkey
      have hnone : rest.lookup key = none := by
        refine List.lookup_eq_none_iff.2 fun member hmember => ?_
        refine bne_iff_ne.2 fun heq => hname ?_
        exact List.mem_map.2 ⟨member, hmember, heq.symm⟩
      simp [hnone]
    · simp [beq_false_of_ne hkey]

/-- In an object that can be read as a record, no field is hidden by another. -/
theorem memberOf?_eq_lookup {names : List String} {least : Nat} {members : List (String × Json)}
    {fields : Fields} (h : (obj members).fields? names least = some fields) {name : String}
    (hname : name ∈ names) : memberOf? name members = fields.lookup name := by
  simp only [fields?] at h
  split at h
  · next hnodup =>
    cases h
    have hkeep : names.contains name = true := List.contains_iff_mem.2 hname
    rw [← lookup_reverse hnodup, ← List.filter_reverse,
      lookup_filter names.contains hkeep]
    rfl
  · cases h

end Json

/-! ## Fields -/

namespace Fields

variable {α : Type} {fields : Fields} {name : String} {read lenient : Json → Option α}
  {write : α → Json}

theorem required_eq_some {j : Json} {a : α} (hlookup : fields.lookup name = some j)
    (hread : read j = some a) : fields.required name read = some a := by
  rw [required, hlookup]
  exact hread

theorem withDefault_eq_some {j : Json} {default a : α} (hlookup : fields.lookup name = some j)
    (hread : read j = some a) : fields.withDefault name default read = some a := by
  rw [withDefault, hlookup]
  exact hread

/-- An optional field is read back, whether it is there or not. -/
theorem optional_eq_some {field : Option α} (hlookup : fields.lookup name = field.map write)
    (hnull : read .null = none) (hread : ∀ a, field = some a → read (write a) = some a) :
    fields.optional name read = some field := by
  rw [optional, hlookup]
  cases field with
  | none => rfl
  | some a =>
    have ha := hread a rfl
    -- What is written is not null, since null is not read.
    cases hwrite : write a with
    | null => rw [hwrite, hnull] at ha; cases ha
    | bool | num | str | arr | obj | void =>
      rw [hwrite] at ha
      simp only [Option.map_some, hwrite, ha]

/-- An optional field that is there has been read. -/
theorem exists_of_optional_eq_some {a : α} (h : fields.optional name read = some (some a)) :
    ∃ j, fields.lookup name = some j ∧ read j = some a := by
  unfold optional at h
  split at h
  · cases h
  · cases h
  · next j _ hlookup =>
    obtain ⟨a', ha, heq⟩ := Option.map_eq_some_iff.1 h
    cases heq
    exact ⟨j, hlookup, ha⟩

/-- A lenient reader that reads whatever a strict one does finds the same field. -/
theorem bind_eq_of_optional {field : Option α} (h : fields.optional name read = some field)
    (hnull : lenient .null = none) (hlenient : ∀ j a, read j = some a → lenient j = some a) :
    (fields.lookup name).bind lenient = field := by
  unfold optional at h
  split at h
  · next hlookup => cases h; rw [hlookup]; rfl
  · next hlookup => cases h; rw [hlookup]; exact hnull
  · next j _ hlookup =>
    obtain ⟨a, ha, rfl⟩ := Option.map_eq_some_iff.1 h
    rw [hlookup]
    exact hlenient j a ha

end Fields

end Blockwise
