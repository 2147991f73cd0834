import Blockwise.Challenge.Basic
import Blockwise.Proofs.Challenge.Parts
import Blockwise.Proofs.Numeral.Order

/-!
# Exact targets

Four parts of an expectation are to be met exactly (`Expectation.Part.exactWord?`).
But a target is a double, and the word that it is compared with is turned into a
double first. So a target that was authored as an integer stands for the nearest
integer of 53 bits of precision, and so does the word. The two can be told apart
when one of them is less than `2 ^ 53` in magnitude, and not always beyond that
(`violates_exact_target`).
-/

namespace Blockwise

namespace Expectation

namespace Part

/-- The key of a part in an object. -/
def name : Part → String
  | .x => "x"
  | .y => "y"
  | .jumpCount => "jumpCount"
  | .moveTotal => "moveTotal"
  | .maxY => "maxY"
  | .minY => "minY"
  | .messageIncludes => "messageIncludes"
  | .lastMessage => "lastMessage"

/-- The word of a state that a part is about, if it is to be met exactly. -/
def exactWord? (c : Character) : Part → Option Int64
  | .x => some c.x
  | .y => some c.y
  | .jumpCount => some c.jumpCount
  | .moveTotal => some c.moveTotal
  | .maxY | .minY | .messageIncludes | .lastMessage => none

end Part

/-- The target of a part that is to be met exactly. -/
def exactTarget? (e : Expectation) : Part → Option Float
  | .x => e.x
  | .y => e.y
  | .jumpCount => e.jumpCount
  | .moveTotal => e.moveTotal
  | .maxY | .minY | .messageIncludes | .lastMessage => none

/-- A part of an expectation is violated by a state if it is among the issues. -/
def Violates (part : Part) (e : Expectation) (c : Character) : Prop :=
  ∃ issue ∈ e.issues c, issue.part = part

theorem not_violates_iff {part : Part} {e : Expectation} {c : Character} :
    ¬ Violates part e c ↔ (e.only part).issues c = [] := by
  simp only [Violates, ← mem_issues_only_iff, List.eq_nil_iff_forall_not_mem, not_exists]

theorem not_violates_exact_iff {part : Part} {e : Expectation} {c : Character} {found : Int64}
    (hfound : part.exactWord? c = some found) :
    ¬ Violates part e c ↔ ∀ target ∈ e.exactTarget? part, wordToFloat found == target := by
  rw [not_violates_iff]
  simp only [issues, List.append_eq_nil_iff, unmet_eq_nil_iff]
  cases part with
  | x | y | jumpCount | moveTotal =>
    cases hfound
    simp [only, keep, exactTarget?]
  | maxY | minY | messageIncludes | lastMessage => cases hfound

/-- An integer that is authored as an exact target is read as a double. -/
theorem exists_ofLenient?_exactTarget? {part : Part} {c : Character} {found n : Int64}
    (hfound : part.exactWord? c = some found) {members : List (String × Json)}
    (hmember : Json.memberOf? part.name members = some (.ofWord n)) :
    ∃ e, ofLenient? (.obj members) = some e ∧ e.exactTarget? part = some (wordToFloat n) := by
  refine ⟨_, rfl, ?_⟩
  cases part with
  | x | y | jumpCount | moveTotal => exact congrArg (Option.bind · Json.float?) hmember
  | maxY | minY | messageIncludes | lastMessage => cases hfound

open Binary64 in
/-- Of an integer that is authored as an exact target, and of the word that it is
compared with, only 53 bits of precision count. So the target is violated exactly when
the word is another one, unless both lie beyond the integers that doubles represent. -/
theorem violates_exact_target {part : Part} {c : Character} {found n : Int64}
    (hfound : part.exactWord? c = some found) {members : List (String × Json)}
    (hmember : Json.memberOf? part.name members = some (.ofWord n)) :
    ∃ e, ofLenient? (.obj members) = some e ∧
      (Violates part e c ↔ nearest found.toInt ≠ nearest n.toInt) ∧
      (found.toInt.natAbs < 2 ^ 53 ∨ n.toInt.natAbs < 2 ^ 53 →
        (Violates part e c ↔ found ≠ n)) := by
  obtain ⟨e, he, htarget⟩ := exists_ofLenient?_exactTarget? hfound hmember
  have hnearest : Violates part e c ↔ nearest found.toInt ≠ nearest n.toInt := by
    rw [← not_iff_not, not_violates_exact_iff hfound, htarget, ne_eq, not_not]
    simp only [Option.mem_some_iff, forall_eq']
    exact ofInt_beq_ofInt_iff (natAbs_toInt_lt found) (natAbs_toInt_lt n)
  refine ⟨e, he, hnearest, fun hsmall => ?_⟩
  rw [hnearest, ne_eq, ne_eq, ← Int64.toInt_inj]
  rcases hsmall with hsmall | hsmall
  · rw [nearest_eq_nearest_iff hsmall]
  · rw [eq_comm, nearest_eq_nearest_iff hsmall, eq_comm]

/-- A target that the counter of jumps has missed by one. -/
theorem violates_exact_target_by_one :
    let c : Character := { jumpCount := 3 }
    let members := [("x", Json.ofWord 9007199254740993), ("jumpCount", Json.ofWord 2)]
    Part.jumpCount.exactWord? c = some 3 ∧
      Json.memberOf? Part.jumpCount.name members = some (.ofWord 2) ∧
      ∃ e, ofLenient? (.obj members) = some e ∧ Violates .jumpCount e c := by
  intro c members
  have hfound : Part.jumpCount.exactWord? c = some 3 := rfl
  have hmember : Json.memberOf? Part.jumpCount.name members = some (.ofWord 2) := rfl
  obtain ⟨e, he, -, hviolates⟩ := violates_exact_target hfound hmember
  exact ⟨hfound, hmember, e, he, (hviolates (.inr (by decide))).2 (by decide)⟩

/-- A place that is one beyond its target, where doubles are two apart, is taken for it. -/
theorem exact_target_met_one_beyond :
    ¬ ∀ (part : Part) (c : Character) (found n : Int64) (members : List (String × Json)),
      part.exactWord? c = some found →
      Json.memberOf? part.name members = some (.ofWord n) →
      ∀ e, ofLenient? (.obj members) = some e → (Violates part e c ↔ found ≠ n) := by
  intro h
  have hviolates := (h .x { x := 9007199254740993 } 9007199254740993 9007199254740992
    [("x", .ofWord 9007199254740992)] rfl rfl _ rfl).2 (by decide)
  exact not_violates_iff.2 (by decide +kernel) hviolates

end Expectation

end Blockwise
