import Blockwise.Challenge.Basic
import Blockwise.Run.Basic

/-!
# Reports

A sequence of blocks is run once for each test case of a challenge, and once
without any constraint when the challenge has no test cases. The results come
in the order of the cases. A run that fails is an error; otherwise the verdict
on the final state decides between success and failure.
-/

namespace Blockwise

inductive Status where
  | success
  | failure
  | error
deriving DecidableEq

namespace Status

def all : List Status := [.success, .failure, .error]

def name : Status → String
  | .success => "success"
  | .failure => "failure"
  | .error => "error"

/-- The mark in front of a result. -/
def mark : Status → String
  | .success => "✓"
  | .failure => "✗"
  | .error => "!"

end Status

/-- The test case to which a result belongs: its place in the challenge, counted
from one, or no test case at all. -/
inductive CaseLabel where
  | ordinal (n : Nat)
  | unconstrained
deriving DecidableEq

def CaseLabel.text : CaseLabel → String
  | .ordinal n => toString n
  | .unconstrained => "-"

structure CaseResult where
  status : Status
  message : String
  label : CaseLabel
  state : Option Character := none
  trace : Option (List Character) := none
deriving DecidableEq

namespace CaseResult

/-- The result of something that could not be run. -/
def error (label : CaseLabel) (message : String) : CaseResult :=
  { status := .error, message, label }

def ofExecution (label : CaseLabel) (status : Status) (message : String) (run : Execution) :
    CaseResult :=
  { status, message, label, state := some run.final, trace := run.trace }

def isPass (result : CaseResult) : Bool := result.status == .success

/-- Runs a sequence without any constraint. -/
def ofFreeRun (config : Config) (blocks : List Block) : CaseResult :=
  match runBlocks config {} blocks with
  | .ok run => .ofExecution .unconstrained .success "You moved it freely!" run
  | .error e => .error .unconstrained e.message

/-- Runs a sequence for a test case. -/
def ofCase (config : Config) (blocks : List Block) (label : CaseLabel) (case : TestCase) :
    CaseResult :=
  match runBlocks config (case.overrides.getD {}) blocks with
  | .error e => .error label e.message
  | .ok run =>
    let verdict := Verdict.ofState case.expectation run.final
    .ofExecution label (if verdict.isPass then .success else .failure) verdict.message run

def text (result : CaseResult) : String :=
  s!"  {result.status.mark} #{result.label.text} {result.message}"

end CaseResult

structure Report where
  results : List CaseResult
deriving DecidableEq

namespace Report

/-- Runs a sequence for a list of test cases. -/
def ofCases (config : Config) (blocks : List Block) (cases : List TestCase) : Report :=
  if cases.isEmpty then ⟨[.ofFreeRun config blocks]⟩
  else ⟨cases.mapIdx fun i case => .ofCase config blocks (.ordinal (i + 1)) case⟩

/-- The message of the first error, or the empty text. -/
def banner (report : Report) : String :=
  ((report.results.find? fun result => result.status == .error).map CaseResult.message).getD ""

def passed (report : Report) : Nat := report.results.countP CaseResult.isPass

/-- Whether there are results, and all of them are successes. -/
def allPassed (report : Report) : Bool :=
  !report.results.isEmpty && report.results.all CaseResult.isPass

/-- The report as a text: a line for each result, and a summary. -/
def text (report : Report) : String :=
  let lines := report.results.map fun result => result.text ++ "\n"
  let rest := report.results.length - report.passed
  String.join lines ++ s!"\n{report.passed} passed, {rest} not passed\n"

end Report

end Blockwise
