import Mathlib.Data.List.Infix
import Blockwise.Proofs.Challenge.Parts
import Blockwise.Proofs.Character.Growth
import Blockwise.Proofs.Numeral.Order
import Blockwise.Proofs.Run.Walk

/-!
# Goals that stay reached

A longer program leaves the character in a later state (`Program.precedes_of_append`).
By then the extremes are no nearer to each other, and everything that had been said
has still been said. So an expectation about extremes and messages that is met at
some time is met from then on: a word that has grown is converted to a double that
is no less, whatever is lost in the conversion.
-/

namespace Blockwise

/-- What comes behind a program goes on from its final state. -/
theorem Program.precedes_of_append {config : Config} {c : Character} {p q : Program}
    {short long : Execution} (hshort : run config c p = .ok short)
    (hlong : run config c (p ++ q) = .ok long) : short.final.Precedes long.final := by
  obtain ⟨start, rest, first, rfl, htag, hfirst, rfl⟩ := exists_actions_of_run_eq_ok hshort
  rw [List.cons_append] at hlong
  obtain ⟨actions, hactions, rfl⟩ := (run_start_eq_ok_iff htag).1 hlong
  rw [actions_append, bind_map_append_eq_ok_iff] at hactions
  obtain ⟨_, others, hfirst', -, rfl⟩ := hactions
  obtain rfl := Except.ok.inj (hfirst.symm.trans hfirst')
  rw [Execution.ofActions, Execution.ofActions, Character.after_append]
  exact Character.precedes_after _ _ others

open Binary64 in
/-- A smaller word is below every double that a larger one is below. -/
theorem wordToFloat_lt_of_le {a b : Int64} (hab : a ≤ b) {target : Float}
    (h : wordToFloat b < target) : wordToFloat a < target :=
  ofInt_lt_of_le (natAbs_toInt_lt a) (natAbs_toInt_lt b) (Int64.le_iff_toInt_le.1 hab) h

open Binary64 in
theorem lt_wordToFloat_of_le {a b : Int64} (hab : a ≤ b) {target : Float}
    (h : target < wordToFloat a) : target < wordToFloat b :=
  lt_ofInt_of_le (natAbs_toInt_lt a) (natAbs_toInt_lt b) (Int64.le_iff_toInt_le.1 hab) h

namespace Expectation

/-- What is said about extremes and messages, and holds at some time, holds later on. -/
theorem issues_eq_nil_of_precedes {a b : Character} (h : a.Precedes b) {maxY minY : Option Float}
    {messageIncludes : Option String}
    (hmet : ({ maxY, minY, messageIncludes } : Expectation).issues a = []) :
    ({ maxY, minY, messageIncludes } : Expectation).issues b = [] := by
  simp only [issues, List.append_eq_nil_iff, unmet_eq_nil_iff, Option.not_mem_none, false_imp_iff,
    implies_true, true_and, and_true] at hmet ⊢
  obtain ⟨⟨hmaxY, hminY⟩, hmessages⟩ := hmet
  refine ⟨⟨?_, ?_⟩, ?_⟩
  · intro target htarget
    have hnot := hmaxY target htarget
    rw [Bool.not_eq_true', decide_eq_false_iff_not] at hnot ⊢
    exact fun hlt => hnot (wordToFloat_lt_of_le h.maxY hlt)
  · intro target htarget
    have hnot := hminY target htarget
    rw [Bool.not_eq_true', decide_eq_false_iff_not] at hnot ⊢
    exact fun hlt => hnot (lt_wordToFloat_of_le h.minY hlt)
  · intro target htarget
    rw [List.contains_iff_mem]
    exact h.messages.mem (List.contains_iff_mem.1 (hmessages target htarget))

end Expectation

/-- A run of a longer program passes every expectation about the extremes and about a
message that a run of its first part passes. -/
theorem run_append_passes {config : Config} {overrides : Overrides} {p q : Program}
    {short long : Execution} (hshort : Program.run config overrides.character p = .ok short)
    (hlong : Program.run config overrides.character (p ++ q) = .ok long)
    {maxY minY : Option Float} {messageIncludes : Option String}
    (hpass : (Verdict.ofState (some { maxY, minY, messageIncludes }) short.final).isPass) :
    (Verdict.ofState (some { maxY, minY, messageIncludes }) long.final).isPass := by
  rw [Verdict.isPass_ofState_iff] at hpass ⊢
  exact Expectation.issues_eq_nil_of_precedes (Program.precedes_of_append hshort hlong) hpass

/-- A jump that reaches a height, and a message; then a branch with a fall below the
ground. -/
theorem run_append_passes_below_ground :
    let config : Config := { goalX := 0, jumpHeight := -5 }
    let overrides : Overrides := { maxY := some 7, messages := some ["hi"] }
    let p : Program := [.leaf (.known .start), .leaf (.known .jump)]
    let q : Program :=
      [⟨{ tag := .known .branch, condition := some (.known .goalReached) },
        [.leaf (.known .move), .leaf (.known .jump)]⟩]
    let e : Expectation := { maxY := some 6.5, minY := some (-5), messageIncludes := some "hi" }
    let short : Character := { maxY := 7, minY := -5, jumpCount := 1, messages := ["hi"] }
    let long : Character := { short with x := 1, moveTotal := 1, jumpCount := 2 }
    Program.run config overrides.character p = .ok { final := short, trace := none } ∧
      Program.run config overrides.character (p ++ q) = .ok { final := long, trace := none } ∧
      (Verdict.ofState (some e) short).isPass ∧ (Verdict.ofState (some e) long).isPass := by
  intro config overrides p q e short long
  have hshort : Program.run config overrides.character p =
      .ok { final := short, trace := none } := by
    decide
  have hlong : Program.run config overrides.character (p ++ q) =
      .ok { final := long, trace := none } := by
    decide
  have hpass : (Verdict.ofState (some e) short).isPass := by decide +kernel
  exact ⟨hshort, hlong, hpass, run_append_passes hshort hlong hpass⟩

end Blockwise
