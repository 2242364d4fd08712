import BlockIr.Description.TypeTable
import BlockIr.Value

/-!
# Constants of a description

A payload means nothing on its own: the type it is read at decides how it is read, the same
way it decides how a constant is written. A declared name for a type is looked through.

* `readData`: a payload at a type, by recursion on the type.
* `readValue`: the evaluation state of an instruction. Without an entry it is a runtime value.
-/

namespace BlockIr

/-- The states that have no payload. -/
def bareState? : String → Option Value
  | "runtime" => some .runtime
  | "undef" => some .undef
  | "zeroes" => some .zeroes
  | _ => none

/-- Read a state that is spelled out, or else a payload. -/
def readState (node : Node) (payload : Node → Reading Data) : Reading Value := do
  if node.has "special" then (← node.field "special").word bareState? .unknownState
  else return .static (← payload node)

/-- Read a part of a constant, which is never a runtime value. -/
def readPart (payload : Node → Reading Data) (node : Node) : Reading Value := do
  match ← readState node payload with
  | .runtime => node.fail .runtimePart
  | value => return value

/-- Read a payload at a type. -/
def readData (types : TypeTable) : Ty → Node → Reading Data
  | .declared _ canonical, node => readData types canonical node
  | .int .., node => .int <$> node.integer
  | .float .., node => .float <$> node.number
  | .pointer _ child _, node => .pointer <$> readPart (readData types child) node
  | .array name child length, node => do
    let items ← node.list
    if (items.length : Int) = length then
      return .array (← items.mapM (readPart (readData types child)))
    else node.fail (.elementCount name length items.length)
  | .maybe _ child, node =>
    if node.doc.isNull then return .absent
    else .present <$> readPart (readData types child) node
  | .errorUnion .., _ | .aggregate .., _ => return .aggregate
  | .plain kind _, node =>
    match kind with
    | .intLiteral => .int <$> node.integer
    | .floatLiteral => .float <$> node.number
    | .bool => .bool <$> node.bool
    | .metaType => .type <$> types.lookup node
    | .fn => .fn <$> node.text
    | .block => do
      let line ← node.id "line"
      return .scope line (← node.id "column")
    | .namespacePath => .namespacePath <$> node.text
    | .boundFn => do
      let symbol ← (← node.field "fn").text
      return .boundFn symbol (← node.id "firstArg")
    | .pureError => return .pureError
    | .invalid | .var | .void | .unreachable | .nullLiteral | .undefinedLiteral => return .void
  | .unrecognised .., _ => return .void

/-- Read the evaluation state of an instruction of a type. -/
def readValue (types : TypeTable) (type : Option Ty) : Option Node → Reading Value
  | none => return .runtime
  | some node =>
    readState node fun node =>
      match type with
      | some type => readData types type node
      | none => node.fail .untyped

end BlockIr
