import Blockwise.Challenge.Json
import Blockwise.Json.Reader
import Blockwise.Json.Writer
import Blockwise.Workspace.Hydration

/-!
# The service

What an editor asks for, with JSON texts as arguments and answers: to run a
sequence for a challenge or by itself, to read it as a program, and to make a
sequence of a generated workspace. A sequence or a challenge that cannot be
read is an error that is part of the answer; overrides and generated workspaces
are not trusted and are read leniently.
-/

namespace Blockwise.Service

def version : String := "0.1.0"

/-- Why an argument could not be read. -/
inductive ReadFault where
  | noJson
  | wrongShape
deriving DecidableEq

def ReadFault.message : ReadFault → String
  | .noJson => "this is not a JSON text"
  | .wrongShape => "this does not have the expected form"

def readText {α : Type} (read : Json → Option α) (text : String) : Except ReadFault α :=
  match Json.ofString? text with
  | none => .error .noJson
  | some j =>
    match read j with
    | none => .error .wrongShape
    | some a => .ok a

/-- Reads a sequence of blocks, with a message if that is not possible. -/
def readBlocks (text : String) : Except String (List Block) :=
  (readText Block.listOfJson? text).mapError fun fault =>
    "Could not read the blocks: " ++ fault.message

/-- Reads a challenge, with a message if that is not possible. -/
def readChallenge (text : String) : Except String Challenge :=
  (readText Challenge.ofJson? text).mapError fun fault =>
    "Could not read the challenge: " ++ fault.message

/-- The settings of the service: every run is recorded, so that it can be
replayed. -/
def config : Config := { recordTrace := true }

/-- The report of something that could not be read. -/
def faultReport (message : String) : Report := ⟨[.error .unconstrained message]⟩

/-- Runs a sequence for a challenge. If neither can be read, the answer is about
the sequence. -/
def runChallenge (blocks challenge : String) : String :=
  let report := match readBlocks blocks, readChallenge challenge with
    | .ok blocks, .ok challenge => Report.ofCases config blocks challenge.testCases
    | .error message, _ => faultReport message
    | _, .error message => faultReport message
  report.toJson.render

def runProgram (blocks overrides : String) : String :=
  let answer := match readBlocks blocks with
    | .error message => Json.obj [("error", .str message)]
    | .ok blocks =>
      let overrides := Overrides.ofLenient? (Json.ofStringOrNull overrides)
      match runBlocks config (overrides.getD {}) blocks with
      | .ok run =>
        .obj [("state", run.final.toJson), ("trace", Character.traceToJson (run.trace.getD []))]
      | .error e => .obj [("error", .str e.message), ("code", e.code.toJson)]
  answer.render

def buildTree (blocks : String) : String :=
  let answer := match readBlocks blocks with
    | .error message => Json.obj [("error", .obj [("message", .str message)])]
    | .ok blocks =>
      match Program.ofBlocks blocks with
      | .ok program => .obj [("nodes", Program.toJson program)]
      | .error fault => .obj [("error", fault.diagnostic.toJson)]
  answer.render

/-- Makes a sequence of a generated workspace. New identities come after the
first `issued` ones. -/
def hydrate (generated : String) (issued : UInt32) : String :=
  let (blocks, _) := Hydration.hydrate ⟨issued.toUInt64⟩ (Json.ofStringOrNull generated)
  (Json.arr (blocks.map Block.toJson)).render

end Blockwise.Service
