import BlockIr.Binary64.Shortest
import BlockIr.Description.Place
import BlockIr.Report

/-!
# Problems of a description

A source may break the rules of its format, and every error of its syntax is a problem. Every other
problem has a cause and the place of the node that is at fault; a missing field is a fault of the
mapping that lacks it.
-/

namespace BlockIr

/-- What a node has to be. -/
inductive Expected where
  | mapping | list | string | boolean | number | integer
  deriving DecidableEq, Repr

def Expected.text : Expected → String
  | .mapping => "expected a mapping"
  | .list => "expected a list"
  | .string => "expected a string"
  | .boolean => "expected a boolean"
  | .number => "expected a number"
  | .integer => "expected an integer"

inductive Cause where
  | missingField (key : String)
  | expected (what : Expected)
  /-- A number that is no id, length or position. -/
  | notIndex (found : Binary64)
  /-- A type has fields, and this is none of them. -/
  | unknownField (typeName field : String)
  | unknownType (name : String)
  | typeCycle (name : String)
  | unknownKind (word : String)
  | unknownOperator (word : String)
  | duplicateBlock (id : Int)
  | duplicateInstruction (id : Int)
  | unknownState (word : String)
  /-- A constant is read at a type, and there is none. -/
  | untyped
  /-- A part of a constant is a runtime value. -/
  | runtimePart
  | elementCount (typeName : String) (length : Int) (found : Nat)
  /-- A constant names an instruction that does not exist. -/
  | unknownInstruction (id : Int)
  deriving DecidableEq

namespace Cause

def code : Cause → String
  | missingField _ | expected _ | notIndex _ | unknownField .. => "IRL002"
  | unknownType _ => "IRL003"
  | typeCycle _ => "IRL004"
  | unknownKind _ => "IRL005"
  | unknownOperator _ => "IRL006"
  | duplicateBlock _ => "IRL007"
  | duplicateInstruction _ => "IRL008"
  | unknownState _ | untyped | runtimePart | elementCount .. => "IRL009"
  | unknownInstruction _ => "IRL010"

def base : Cause → String
  | missingField _ | expected _ | notIndex _ | unknownField .. => "Unexpected node"
  | unknownType _ => "Unknown type"
  | typeCycle _ => "Type refers to itself"
  | unknownKind _ => "Unknown kind"
  | unknownOperator _ => "Unknown operator"
  | duplicateBlock _ => "Duplicate block id"
  | duplicateInstruction _ => "Duplicate instruction id"
  | unknownState _ | untyped | runtimePart | elementCount .. => "Value does not fit its type"
  | unknownInstruction _ => "Unknown instruction"

/-- A word of the description in quotes. -/
def quoted (word : String) : String := "'" ++ word ++ "'"

def detail : Cause → String
  | missingField key => "missing field " ++ quoted key
  | expected what => what.text
  | notIndex found =>
    "expected a non-negative integer, found " ++ found.text Binary64.messageStyle
  | unknownField typeName field => typeName ++ " has no field " ++ quoted field
  | unknownType word | typeCycle word | unknownKind word | unknownOperator word
  | unknownState word => quoted word
  | duplicateBlock id => Text.integer id
  | duplicateInstruction id | unknownInstruction id => "#" ++ Text.integer id
  | untyped => "a constant needs a type"
  | runtimePart => "a nested value must be known at compile time"
  | elementCount typeName length found =>
    typeName ++ " needs " ++ Text.integer length ++ " elements, found " ++ Text.integer found

end Cause

inductive LoadError where
  /-- The source breaks the rules of its format; the parser says how. -/
  | syntaxError (message : String)
  | fault (place : Place) (cause : Cause)
  deriving DecidableEq

namespace LoadError

def code : LoadError → String
  | syntaxError _ => "IRL001"
  | fault _ cause => cause.code

/-- Where the fault is; the root is not shown. -/
def location : LoadError → Option String
  | syntaxError _ => none
  | fault place _ => if place.text = "" then none else some place.text

def text : LoadError → String
  | syntaxError message => "Invalid YAML: " ++ message
  | fault place cause =>
    cause.base ++ (if place.text = "" then "" else " at " ++ place.text) ++ ": " ++ cause.detail

instance : Diagnostic LoadError where
  message e :=
    { origin := .description
      code := e.code
      severity := .error
      location := e.location
      text := e.text }

end LoadError

end BlockIr
