import Mathlib.Data.List.Nodup
import Blockwise.Challenge.Expectation

/-!
# The parts of an expectation

An expectation has eight parts, and each of them is looked at alone. What is left
of an expectation when some of its parts are dropped (`Expectation.keep`) has the
issues that belong to the other parts, and no others (`Expectation.issues_keep`).
No part has two issues, and they come in the order of the parts
(`Expectation.map_part_issues`); so the issues can be told apart by their parts,
and put together again.
-/

namespace Blockwise

/-- A list whose keys come in a given order, none of them twice, is put together
from what it has under each key. -/
theorem eq_flatMap_filter {α κ : Type} [DecidableEq κ] (key : α → κ) {keys : List κ}
    (hkeys : keys.Nodup) {l : List α} (h : (l.map key).Sublist keys) :
    l = keys.flatMap fun k => l.filter (key · == k) := by
  induction keys generalizing l with
  | nil => simpa using h
  | cons k keys ih =>
    obtain ⟨hk, hnodup⟩ := List.nodup_cons.1 hkeys
    have hrest {rest : List α} (h : (rest.map key).Sublist keys) :
        rest.filter (key · == k) = [] := by
      rw [List.filter_eq_nil_iff]
      intro a ha hak
      exact hk (eq_of_beq hak ▸ h.mem (List.mem_map_of_mem ha))
    rw [List.flatMap_cons]
    rcases List.sublist_cons_iff.1 h with h | ⟨ks, hks, h⟩
    · rw [hrest h, List.nil_append]
      exact ih hnodup h
    · obtain ⟨a, rest, rfl, rfl, rfl⟩ := List.map_eq_cons_iff.1 hks
      have hothers : ∀ k' ∈ keys, (a :: rest).filter (key · == k') = rest.filter (key · == k') := by
        intro k' hk'
        exact List.filter_cons_of_neg fun hak => hk (eq_of_beq hak ▸ hk')
      rw [List.filter_cons_of_pos (p := (key · == key a)) (beq_self_eq_true _), hrest h,
        List.singleton_append]
      exact congrArg (a :: ·) ((ih hnodup h).trans (List.flatMap_congr hothers).symm)

namespace Expectation

/-- The parts of an expectation. -/
inductive Part where
  | x
  | y
  | jumpCount
  | moveTotal
  | maxY
  | minY
  | messageIncludes
  | lastMessage
deriving DecidableEq

namespace Part

/-- The parts in the order in which their issues come. -/
def all : List Part :=
  [.x, .y, .jumpCount, .moveTotal, .maxY, .minY, .messageIncludes, .lastMessage]

theorem mem_all_parts (part : Part) : part ∈ all := by
  cases part <;> decide

theorem nodup_all : all.Nodup := by
  decide

end Part

/-- The expectation with some of its parts, and without the others. -/
def keep (kept : Part → Bool) (e : Expectation) : Expectation where
  x := if kept .x then e.x else none
  y := if kept .y then e.y else none
  moveTotal := if kept .moveTotal then e.moveTotal else none
  jumpCount := if kept .jumpCount then e.jumpCount else none
  maxY := if kept .maxY then e.maxY else none
  minY := if kept .minY then e.minY else none
  messageIncludes := if kept .messageIncludes then e.messageIncludes else none
  lastMessage := if kept .lastMessage then e.lastMessage else none

/-- The expectation with one of its parts only. -/
def only (part : Part) (e : Expectation) : Expectation := e.keep (· == part)

end Expectation

/-- The part of the expectation that is not met. -/
def Issue.part : Issue → Expectation.Part
  | .x .. => .x
  | .y .. => .y
  | .jumpCount .. => .jumpCount
  | .moveTotal .. => .moveTotal
  | .maxY .. => .maxY
  | .minY .. => .minY
  | .messageIncludes .. => .messageIncludes
  | .lastMessage .. => .lastMessage

namespace Expectation

/-! ## The issues of some of the parts -/

section Unmet

variable {α : Type} (issue : α → Issue) {part : Part} (target : Option α) (isMet : α → Bool)

theorem unmet_eq_nil_iff : unmet target isMet issue = [] ↔ ∀ a ∈ target, isMet a := by
  cases target with
  | none => simp [unmet]
  | some a => cases hmet : isMet a <;> simp [unmet, hmet]

theorem filter_unmet (kept : Part → Bool) (h : ∀ a, (issue a).part = part) :
    (unmet target isMet issue).filter (kept ·.part) =
      unmet (if kept part then target else none) isMet issue := by
  cases target with
  | none => simp [unmet]
  | some a => cases hkept : kept part <;> cases hmet : isMet a <;> simp [unmet, h, hkept, hmet]

theorem map_part_unmet (h : ∀ a, (issue a).part = part) :
    ((unmet target isMet issue).map Issue.part).Sublist [part] := by
  cases target with
  | none => exact List.nil_sublist _
  | some a => cases hmet : isMet a <;> simp [unmet, h, hmet]

end Unmet

/-- To drop parts of an expectation is to drop their issues. -/
theorem issues_keep (kept : Part → Bool) (e : Expectation) (c : Character) :
    (e.keep kept).issues c = (e.issues c).filter (kept ·.part) := by
  simp only [issues, List.filter_append]
  rw [filter_unmet (.x · c.x) _ _ kept fun _ => rfl,
    filter_unmet (.y · c.y) _ _ kept fun _ => rfl,
    filter_unmet (.jumpCount · c.jumpCount) _ _ kept fun _ => rfl,
    filter_unmet (.moveTotal · c.moveTotal) _ _ kept fun _ => rfl,
    filter_unmet (.maxY · c.maxY) _ _ kept fun _ => rfl,
    filter_unmet (.minY · c.minY) _ _ kept fun _ => rfl,
    filter_unmet .messageIncludes _ _ kept fun _ => rfl,
    filter_unmet (.lastMessage · c.lastMessage) _ _ kept fun _ => rfl]
  rfl

/-- The issues come in the order of the parts, and no part has two of them. -/
theorem map_part_issues (e : Expectation) (c : Character) :
    ((e.issues c).map Issue.part).Sublist Part.all := by
  simp only [issues, List.map_append]
  exact (map_part_unmet (.x · c.x) _ _ fun _ => rfl)
    |>.append (map_part_unmet (.y · c.y) _ _ fun _ => rfl)
    |>.append (map_part_unmet (.jumpCount · c.jumpCount) _ _ fun _ => rfl)
    |>.append (map_part_unmet (.moveTotal · c.moveTotal) _ _ fun _ => rfl)
    |>.append (map_part_unmet (.maxY · c.maxY) _ _ fun _ => rfl)
    |>.append (map_part_unmet (.minY · c.minY) _ _ fun _ => rfl)
    |>.append (map_part_unmet .messageIncludes _ _ fun _ => rfl)
    |>.append (map_part_unmet (.lastMessage · c.lastMessage) _ _ fun _ => rfl)

theorem mem_issues_only_iff {part : Part} {e : Expectation} {c : Character} {issue : Issue} :
    issue ∈ (e.only part).issues c ↔ issue ∈ e.issues c ∧ issue.part = part := by
  rw [only, issues_keep, List.mem_filter, beq_iff_eq]

theorem length_issues_only_le_one (part : Part) (e : Expectation) (c : Character) :
    ((e.only part).issues c).length ≤ 1 := by
  have hparts : ((e.only part).issues c).map Issue.part =
      .replicate ((e.only part).issues c).length part := by
    refine List.eq_replicate_iff.2 ⟨List.length_map _, ?_⟩
    rintro _ hpart
    obtain ⟨issue, hissue, rfl⟩ := List.mem_map.1 hpart
    exact (mem_issues_only_iff.1 hissue).2
  rw [← List.nodup_replicate (a := part), ← hparts]
  exact (map_part_issues _ c).nodup Part.nodup_all

theorem issues_eq_flatMap_only (e : Expectation) (c : Character) :
    e.issues c = Part.all.flatMap fun part => (e.only part).issues c := by
  simp only [only, issues_keep]
  exact eq_flatMap_filter Issue.part Part.nodup_all (map_part_issues e c)

end Expectation

/-! ## The verdict on some of the parts -/

namespace Verdict

theorem issues_ofState (e : Expectation) (c : Character) :
    (ofState (some e) c).issues = e.issues c := by
  rw [ofState]
  cases e.issues c <;> rfl

theorem isPass_ofState_iff {e : Expectation} {c : Character} :
    (ofState (some e) c).isPass ↔ e.issues c = [] := by
  rw [ofState]
  cases e.issues c <;> simp [isPass]

/-- The verdict on an expectation is put together from the verdicts on its parts,
in a fixed order: each part adds its own issue or none. So a state passes if it
passes for each part, and what is dropped from an expectation only takes issues
away. -/
theorem ofState_by_part (e : Expectation) (c : Character) :
    (ofState (some e) c).issues =
        Expectation.Part.all.flatMap (fun part => (ofState (some (e.only part)) c).issues) ∧
      (∀ part, (ofState (some (e.only part)) c).issues.length ≤ 1 ∧
        ∀ issue ∈ (ofState (some (e.only part)) c).issues, issue.part = part) ∧
      ((ofState (some e) c).isPass ↔ ∀ part, (ofState (some (e.only part)) c).isPass) ∧
      ∀ kept, (ofState (some (e.keep kept)) c).issues.Sublist (ofState (some e) c).issues ∧
        ((ofState (some e) c).isPass → (ofState (some (e.keep kept)) c).isPass) := by
  simp only [issues_ofState, isPass_ofState_iff]
  refine ⟨e.issues_eq_flatMap_only c, ?_, ?_, ?_⟩
  · intro part
    exact ⟨e.length_issues_only_le_one part c,
      fun issue hissue => (Expectation.mem_issues_only_iff.1 hissue).2⟩
  · rw [e.issues_eq_flatMap_only c, List.flatMap_eq_nil_iff]
    exact ⟨fun h part => h part part.mem_all_parts, fun h part _ => h part⟩
  · intro kept
    have hsub : ((e.keep kept).issues c).Sublist (e.issues c) := by
      rw [Expectation.issues_keep]
      exact List.filter_sublist
    exact ⟨hsub, fun h => List.eq_nil_of_sublist_nil (h ▸ hsub)⟩

end Verdict

end Blockwise
