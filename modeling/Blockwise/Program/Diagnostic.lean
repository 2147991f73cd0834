import Blockwise.Block.Basic

/-!
# Diagnostics

A fault in a program is reported with a numeric code, a category that follows
from the code, a message for the learner, and, when there is one, the block at
which the editor should point.
-/

namespace Blockwise

/-- The two classes of faults: a sequence whose bodies do not nest, and a
program that nests but breaks a rule when it is run. -/
inductive FaultCategory where
  | structural
  | runtime
deriving DecidableEq

namespace FaultCategory

def all : List FaultCategory := [.structural, .runtime]

def name : FaultCategory → String
  | .structural => "structure"
  | .runtime => "runtime"

end FaultCategory

/-- The numeric code of a fault. -/
structure FaultCode where
  value : UInt16
deriving DecidableEq

namespace FaultCode

def unclosedBody : FaultCode := ⟨100⟩

def unmatchedCloser : FaultCode := ⟨101⟩

def missingStart : FaultCode := ⟨200⟩

def duplicateStart : FaultCode := ⟨201⟩

def emptyLoop : FaultCode := ⟨202⟩

def conditionUnset : FaultCode := ⟨203⟩

def unknownCondition : FaultCode := ⟨204⟩

def unsupportedBlock : FaultCode := ⟨205⟩

def emptyProgram : FaultCode := ⟨206⟩

/-- The codes from 100 to 199 are structural, all others belong to a run. -/
def category (code : FaultCode) : FaultCategory :=
  if 100 ≤ code.value ∧ code.value ≤ 199 then .structural else .runtime

def text (code : FaultCode) : String := s!"E{code.value.toNat}"

end FaultCode

structure Diagnostic where
  code : FaultCode
  category : FaultCategory
  message : String
  block : Option BlockId
deriving DecidableEq

/-- The report with the category that belongs to its code. -/
def Diagnostic.ofCode (code : FaultCode) (message : String) (block : Option BlockId) :
    Diagnostic :=
  ⟨code, code.category, message, block⟩

end Blockwise
