import Blockwise.Challenge.Report
import Blockwise.Proofs.Run.Trace

/-!
# What a report says

Every result of a report is read off one run, the one for its own test case, and
says of it what a learner has to know (`CaseResult.reports_ofCase`). Its place in
the report is only in its label. So the results of a list of cases are those that
the cases have alone, one behind the other (`Report.map_relabel_results`).

The banner repeats the message of the first error. As no error has an empty
message (`RunError.message_ne_empty`), an empty banner stands for a report without
errors.
-/

namespace Blockwise

/-! ## The result of a case -/

namespace CaseResult

/-- The result with another label. -/
def relabel (label : CaseLabel) (result : CaseResult) : CaseResult := { result with label }

/-- What a result says about the run of a sequence for a test case. -/
structure Reports (config : Config) (blocks : List Block) (case : TestCase)
    (result : CaseResult) : Prop where
  status_eq_error_iff :
    result.status = .error ↔ ∃ e, runBlocks config (case.overrides.getD {}) blocks = .error e
  of_error : ∀ e, runBlocks config (case.overrides.getD {}) blocks = .error e →
    result.message = e.message ∧ result.state = none ∧ result.trace = none
  of_ok : ∀ run, runBlocks config (case.overrides.getD {}) blocks = .ok run →
    result.message = (Verdict.ofState case.expectation run.final).message ∧
      result.state = some run.final ∧ result.trace = run.trace ∧
      (result.trace.isSome ↔ config.recordTrace) ∧
      (result.status = .success ↔
        ∀ issues, Verdict.ofState case.expectation run.final ≠ .failed issues)

variable {config : Config} {blocks : List Block} {case : TestCase}

theorem ofCase_of_error {e : RunError}
    (h : runBlocks config (case.overrides.getD {}) blocks = .error e) (label : CaseLabel) :
    ofCase config blocks label case = .error label e.message := by
  rw [ofCase, h]

theorem ofCase_of_ok {run : Execution}
    (h : runBlocks config (case.overrides.getD {}) blocks = .ok run) (label : CaseLabel) :
    ofCase config blocks label case =
      .ofExecution label
        (if (Verdict.ofState case.expectation run.final).isPass then .success else .failure)
        (Verdict.ofState case.expectation run.final).message run := by
  rw [ofCase, h]

/-- The label is the only part of a result that does not come from the case. -/
theorem relabel_ofCase (config : Config) (blocks : List Block) (label label' : CaseLabel)
    (case : TestCase) :
    (ofCase config blocks label case).relabel label' = ofCase config blocks label' case := by
  cases hrun : runBlocks config (case.overrides.getD {}) blocks with
  | error e =>
    rw [ofCase_of_error hrun, ofCase_of_error hrun]
    rfl
  | ok run =>
    rw [ofCase_of_ok hrun, ofCase_of_ok hrun]
    rfl

end CaseResult

theorem Verdict.isPass_iff (verdict : Verdict) :
    verdict.isPass ↔ ∀ issues, verdict ≠ .failed issues := by
  cases verdict <;> simp [isPass]

/-- A run that succeeds keeps its frames exactly when the settings say so. -/
theorem isSome_trace_of_runBlocks {config : Config} {overrides : Overrides}
    {blocks : List Block} {run : Execution} (h : runBlocks config overrides blocks = .ok run) :
    run.trace.isSome ↔ config.recordTrace := by
  unfold runBlocks at h
  split at h
  · cases h
  · split at h
    · cases h
    · obtain ⟨_, _, actions, -, -, -, rfl⟩ := Program.exists_actions_of_run_eq_ok h
      rw [Execution.ofActions]
      cases config.recordTrace <;> simp

theorem CaseResult.reports_ofCase (config : Config) (blocks : List Block) (label : CaseLabel)
    (case : TestCase) : (ofCase config blocks label case).Reports config blocks case := by
  cases hrun : runBlocks config (case.overrides.getD {}) blocks with
  | error e =>
    rw [ofCase_of_error hrun]
    constructor
    · exact ⟨fun _ => ⟨e, hrun⟩, fun _ => rfl⟩
    · rintro e' he'
      rw [hrun] at he'
      cases he'
      exact ⟨rfl, rfl, rfl⟩
    · intro run hok
      rw [hrun] at hok
      cases hok
  | ok run =>
    rw [ofCase_of_ok hrun]
    constructor
    · constructor
      · intro hstatus
        unfold ofExecution at hstatus
        split at hstatus <;> cases hstatus
      · rintro ⟨e, he⟩
        rw [hrun] at he
        cases he
    · intro e he
      rw [hrun] at he
      cases he
    · intro run' hrun'
      rw [hrun] at hrun'
      cases hrun'
      refine ⟨rfl, rfl, rfl, isSome_trace_of_runBlocks hrun, ?_⟩
      rw [← Verdict.isPass_iff, ofExecution]
      split <;> simp [*]

/-! ## The messages of errors -/

theorem NestingFault.message_ne_empty (fault : NestingFault) : fault.message ≠ "" := by
  cases fault with
  | unclosed opener =>
    intro h
    rw [message, String.append_eq_empty_iff] at h
    exact absurd h.2 (by decide)
  | unmatched closer =>
    rw [message]
    decide

/-- Every error has something to say. -/
theorem RunError.message_ne_empty (e : RunError) : e.message ≠ "" := by
  cases e with
  | nesting fault => exact fault.message_ne_empty
  | _ => simp only [message]; decide

/-! ## Reports -/

namespace Report

variable {config : Config} {blocks : List Block} {cases : List TestCase}

theorem results_ofCases (hcases : cases ≠ []) :
    (ofCases config blocks cases).results =
      cases.mapIdx fun i case => .ofCase config blocks (.ordinal (i + 1)) case := by
  have hempty : ¬ cases.isEmpty := by rwa [List.isEmpty_iff]
  rw [ofCases, if_neg hempty]

theorem results_ofCases_singleton (config : Config) (blocks : List Block) (case : TestCase) :
    (ofCases config blocks [case]).results = [.ofCase config blocks (.ordinal 1) case] := rfl

/-- Up to their labels, the results are those of the cases, each by itself. -/
theorem map_relabel_results (hcases : cases ≠ []) (label : CaseLabel) :
    (ofCases config blocks cases).results.map (CaseResult.relabel label) =
      cases.map (CaseResult.ofCase config blocks label) := by
  rw [results_ofCases hcases]
  refine List.ext_getElem? fun i => ?_
  rw [List.getElem?_map, List.getElem?_mapIdx, List.getElem?_map, Option.map_map]
  congr 1
  funext case
  exact CaseResult.relabel_ofCase ..

theorem banner_of_split {report : Report} {before after : List CaseResult} {result : CaseResult}
    (hsplit : report.results = before ++ result :: after)
    (hbefore : ∀ r ∈ before, r.status ≠ .error) (hresult : result.status = .error) :
    report.banner = result.message := by
  have hfind : report.results.find? (fun r => r.status == .error) = some result := by
    rw [List.find?_eq_some_iff_append]
    refine ⟨by simp [hresult], before, after, hsplit, fun r hr => ?_⟩
    simp [hbefore r hr]
  rw [banner, hfind]
  rfl

/-- If errors have messages, the banner is empty only where there is no error. -/
theorem banner_eq_empty_iff {report : Report}
    (hmessage : ∀ r ∈ report.results, r.status = .error → r.message ≠ "") :
    report.banner = "" ↔ ∀ r ∈ report.results, r.status ≠ .error := by
  cases hfind : report.results.find? (fun r => r.status == .error) with
  | none =>
    have hnone : ∀ r ∈ report.results, r.status ≠ .error := by
      simpa using hfind
    rw [banner, hfind]
    exact ⟨fun _ => hnone, fun _ => rfl⟩
  | some result =>
    have hmem := List.mem_of_find?_eq_some hfind
    have hresult : result.status = .error := by simpa using List.find?_some hfind
    rw [banner, hfind]
    constructor
    · intro h
      exact absurd h (hmessage result hmem hresult)
    · intro h
      exact absurd hresult (h result hmem)

theorem allPassed_iff {report : Report} (hresults : report.results ≠ []) :
    report.allPassed ↔ report.passed = report.results.length := by
  rw [allPassed, passed, List.countP_eq_length]
  simp [hresults]

theorem message_ne_empty_of_mem {result : CaseResult}
    (hresult : result ∈ (ofCases config blocks cases).results) (hcases : cases ≠ [])
    (herror : result.status = .error) : result.message ≠ "" := by
  rw [results_ofCases hcases] at hresult
  obtain ⟨i, hi, rfl⟩ := List.mem_mapIdx.1 hresult
  have hreports := CaseResult.reports_ofCase config blocks (.ordinal (i + 1)) cases[i]
  obtain ⟨e, he⟩ := hreports.status_eq_error_iff.1 herror
  rw [(hreports.of_error e he).1]
  exact e.message_ne_empty

/-- The report of a list of test cases has one result for each case, in their
order. A result says what has become of the run for its case, and it is the one
that the case has alone, under another label; so when the cases are permuted, the
results are. The banner is the message of the first error, and is empty when there
is none. All cases are passed when as many results are successes as there are. -/
theorem ofCases_case_by_case (config : Config) (blocks : List Block) {cases : List TestCase}
    (hcases : cases ≠ []) :
    let report := ofCases config blocks cases
    report.results.length = cases.length ∧
    (∀ i case, cases[i]? = some case →
      ∃ result alone, report.results[i]? = some result ∧
        (ofCases config blocks [case]).results = [alone] ∧
        result = alone.relabel (.ordinal (i + 1)) ∧ result.Reports config blocks case) ∧
    (∀ cases', cases.Perm cases' → ∀ label,
      (report.results.map (CaseResult.relabel label)).Perm
        ((ofCases config blocks cases').results.map (CaseResult.relabel label))) ∧
    (∀ before result after, report.results = before ++ result :: after →
      (∀ r ∈ before, r.status ≠ .error) → result.status = .error →
      report.banner = result.message) ∧
    (report.banner = "" ↔ ∀ r ∈ report.results, r.status ≠ .error) ∧
    (report.allPassed ↔ report.passed = report.results.length) := by
  intro report
  have hlength : report.results.length = cases.length := by
    rw [results_ofCases hcases, List.length_mapIdx]
  refine ⟨hlength, ?_, ?_, fun _ _ _ => banner_of_split, ?_, ?_⟩
  · intro i case hi
    refine ⟨.ofCase config blocks (.ordinal (i + 1)) case, _, ?_,
      results_ofCases_singleton config blocks case, ?_, CaseResult.reports_ofCase ..⟩
    · rw [results_ofCases hcases, List.getElem?_mapIdx, hi]
      rfl
    · exact (CaseResult.relabel_ofCase ..).symm
  · intro cases' hperm label
    have hcases' : cases' ≠ [] := by
      rintro rfl
      exact hcases hperm.eq_nil
    rw [map_relabel_results hcases, map_relabel_results hcases']
    exact hperm.map _
  · exact banner_eq_empty_iff fun r hr => message_ne_empty_of_mem hr hcases
  · refine allPassed_iff fun hnil => hcases ?_
    rw [hnil] at hlength
    exact List.eq_nil_of_length_eq_zero hlength.symm

/-- An empty loop in a branch is come to only from the start at the goal; of the
other two cases, one is met and one is not. -/
theorem ofCases_case_by_case_one_of_each :
    let config : Config := { recordTrace := true }
    let blocks : List Block :=
      [{ tag := .known .start, id := "a" }, { tag := .known .move, id := "b" },
        { tag := .known .branch, condition := some (.known .goalReached), id := "c" },
        { tag := .known .loop, id := "d" }, { tag := .known .close, id := "e" },
        { tag := .known .close, id := "f" }]
    let passes : TestCase := { expected := ⟨.obj [("x", .num (.int 1))], rfl⟩ }
    let fails : TestCase :=
      { input := [⟨.obj [("y", .num (.float (-2.5)))], rfl⟩],
        expected := ⟨.obj [("x", .str "far"), ("maxY", .num (.int 1))], rfl⟩ }
    let breaks : TestCase := { input := [⟨.obj [("x", .num (.int 9))], rfl⟩, ⟨.null, rfl⟩] }
    let report := ofCases config blocks [passes, breaks, fails]
    report.results.map CaseResult.status = [.success, .error, .failure] ∧
      (∃ result alone, report.results[2]? = some result ∧
        (ofCases config blocks [fails]).results = [alone] ∧
        result = alone.relabel (.ordinal 3) ∧ result.Reports config blocks fails) ∧
      (report.results.map (CaseResult.relabel .unconstrained)).Perm
        ((ofCases config blocks [breaks, passes, fails]).results.map
          (CaseResult.relabel .unconstrained)) ∧
      report.banner = RunError.emptyLoop.message ∧
      ¬ (report.banner = "") ∧ ¬ report.allPassed := by
  intro config blocks passes fails breaks report
  obtain ⟨-, hresults, hperm, hbanner, hempty, hall⟩ :=
    ofCases_case_by_case config blocks (List.cons_ne_nil passes [breaks, fails])
  have hbreaks : runBlocks config (breaks.overrides.getD {}) blocks = .error .emptyLoop := by
    decide +kernel
  have hstatus : report.results.map CaseResult.status = [.success, .error, .failure] := by
    decide +kernel
  have hmem : CaseResult.ofCase config blocks (.ordinal 2) breaks ∈ report.results :=
    List.mem_cons_of_mem _ List.mem_cons_self
  have hpassed : (CaseResult.ofCase config blocks (.ordinal 1) passes).status ≠ .error := by
    decide +kernel
  have herror := CaseResult.ofCase_of_error hbreaks (.ordinal 2)
  refine ⟨hstatus, hresults 2 fails rfl, hperm _ (.swap breaks passes [fails]) .unconstrained,
    ?_, ?_, ?_⟩
  · have hmessage := hbanner [.ofCase config blocks (.ordinal 1) passes]
      (.ofCase config blocks (.ordinal 2) breaks) [.ofCase config blocks (.ordinal 3) fails] rfl
      (List.forall_mem_singleton.2 hpassed) (by rw [herror]; rfl)
    rw [hmessage, herror]
    rfl
  · rw [hempty]
    intro h
    exact h _ hmem (by rw [herror]; rfl)
  · rw [hall]
    decide +kernel

end Report

end Blockwise
