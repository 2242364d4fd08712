import BlockIr.Report
import BlockIr.Value

/-!
# What stops a dump

A dump stops at the first problem. None is recoverable, and none arises from a graph that is
well formed and well typed. A constant that is its own receiver has no text either, but nothing
notices that as a problem: its rendering goes around in a circle without an end.

* `DumpError`: the problems.
* `DumpStop`: a problem, or no end.
-/

namespace BlockIr

inductive DumpError where
  | unknownOperation (kind : String)
  | unknownType (kind : String)
  /-- A runtime value inside a constant of the type named. -/
  | runtimeValue (typeName : String)
  /-- A constant instruction that holds a runtime value. -/
  | runtimeConstant (id : InstrId)
  | mismatch (expected typeName found : String)
  | arrayLength (typeName : String) (count : Nat)
  | emptyPhi (id : InstrId)
  | missingInstruction (id : InstrId)
  | missingBlock (id : BlockId)
  | untypedConstant (id : InstrId)
  | unknownState
  | streamFailed (reason : String)
  deriving DecidableEq, Repr

namespace DumpError

def code : DumpError → String
  | unknownOperation _ => "IRD001"
  | unknownType _ => "IRD002"
  | runtimeValue _ | runtimeConstant _ => "IRD003"
  | mismatch .. => "IRD004"
  | arrayLength .. => "IRD005"
  | emptyPhi _ => "IRD006"
  | missingInstruction _ => "IRD007"
  | missingBlock _ => "IRD008"
  | untypedConstant _ => "IRD009"
  | unknownState => "IRD010"
  | streamFailed _ => "IRD011"

/-- An instruction id as a dump shows it. -/
def idText (id : InstrId) : String := "#" ++ Text.integer id

theorem idText_inj {a b : InstrId} : idText a = idText b ↔ a = b := by
  rw [idText, idText, String.append_right_inj, Text.integer_inj]

def base : DumpError → String
  | unknownOperation _ => "Unknown instruction kind"
  | unknownType _ => "Unknown type kind"
  | runtimeValue _ | runtimeConstant _ => "Runtime value reached the constant renderer"
  | mismatch .. => "Constant does not match its type"
  | arrayLength .. => "Array constant length differs from its type"
  | emptyPhi _ => "Phi has no incoming edges"
  | missingInstruction _ => "Reference to an unknown instruction"
  | missingBlock _ => "Reference to an unknown block"
  | untypedConstant _ => "Constant operand has no type"
  | unknownState => "Unknown evaluation state"
  | streamFailed _ => "Output stream failed"

def detail : DumpError → String
  | unknownOperation kind | unknownType kind => kind
  | runtimeValue typeName => "at type " ++ typeName
  | mismatch expected typeName found =>
    "expected " ++ expected ++ " data for " ++ typeName ++ ", found " ++ found
  | arrayLength typeName count => typeName ++ " holds " ++ Text.integer count ++ " elements"
  | emptyPhi id | missingInstruction id | untypedConstant id | runtimeConstant id => idText id
  | missingBlock id => "block " ++ Text.integer id
  | unknownState => "[object Object]"
  | streamFailed reason => reason

instance : Diagnostic DumpError where
  message e :=
    { origin := .dump
      code := e.code
      severity := .error
      location := none
      text := withDetail e.base e.detail }

end DumpError

/-- What stops a dump. -/
inductive DumpStop where
  | problem (p : DumpError)
  /-- The receivers of a constant lead around in a circle. -/
  | endless
  deriving DecidableEq, Repr

/-- The code of the problem, if there is one. -/
def DumpStop.code? : DumpStop → Option String
  | .problem p => some p.code
  | .endless => none

end BlockIr
