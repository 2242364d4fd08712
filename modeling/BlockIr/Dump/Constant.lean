import BlockIr.Binary64.Fixed
import BlockIr.Dump.Error
import BlockIr.Executable

/-!
# Text of constants

The shape of the type a value is read at picks the rule its data is written by; the parts of
an array, a pointer or an optional are read at the child type. The rendering of a bound
function's receiver is a parameter, so that reading a constant is a recursion on the type
alone.

An operand is shown as its value when that is known, and as an id token otherwise. Only the
operand itself is looked at, never its own operands, so circles of operands are harmless.
A receiver leads to the value of another instruction; a chain of receivers that visits more
instructions than there are runs in a circle.
-/

namespace BlockIr

/-- Text of a value whose data, if it has any, is written by `static`. -/
def Value.textWith (typeName : String) (static : Data → Except DumpStop String) :
    Value → Except DumpStop String
  | .runtime => .error (.problem (.runtimeValue typeName))
  | .undef => .ok "undefined"
  | .zeroes => .ok "zeroes"
  | .static data => static data
  | .unrecognised _ => .error (.problem .unknownState)

/-- The data does not have the kind the type reads. -/
def Data.mismatch (expected typeName : String) (data : Data) : Except DumpStop String :=
  .error (.problem (.mismatch expected typeName data.kindWord))

/-- Zero-based position of a lexical block, counted from one. -/
def scopeText (line column : Int) : String :=
  "(scope:" ++ Text.integer (line + 1) ++ ":" ++ Text.integer (column + 1) ++ ")"

/-- Text of data at a shape that has only a name. -/
def PlainKind.dataText (receiver : InstrId → Except DumpStop String) (typeName : String) :
    PlainKind → Data → Except DumpStop String
  | .invalid, _ => .ok "(invalid)"
  | .var, _ => .ok "(var)"
  | .void, _ => .ok "\x7b\x7d"
  | .unreachable, _ => .ok "@unreachable()"
  | .nullLiteral, _ => .ok "null"
  | .undefinedLiteral, _ => .ok "undefined"
  | .pureError, _ => .ok "(pure error constant)"
  | .intLiteral, data =>
    match data with
    | .int n => .ok (Text.integer n)
    | _ => data.mismatch "int" typeName
  | .floatLiteral, data =>
    match data with
    | .float x => .ok x.fixed
    | _ => data.mismatch "float" typeName
  | .bool, data =>
    match data with
    | .bool b => .ok (if b then "true" else "false")
    | _ => data.mismatch "bool" typeName
  | .metaType, data =>
    match data with
    | .type t => .ok t.name
    | _ => data.mismatch "type" typeName
  | .fn, data =>
    match data with
    | .fn symbol => .ok symbol
    | _ => data.mismatch "fn" typeName
  | .block, data =>
    match data with
    | .scope line column => .ok (scopeText line column)
    | _ => data.mismatch "scope" typeName
  | .namespacePath, data =>
    match data with
    | .namespacePath path => .ok ("(namespace: " ++ path ++ ")")
    | _ => data.mismatch "namespace" typeName
  | .boundFn, data =>
    match data with
    | .boundFn symbol id => do
      let argument ← receiver id
      return "bound " ++ symbol ++ " to " ++ argument
    | _ => data.mismatch "bound_fn" typeName

/-- Text of data read at a type. -/
def Ty.dataText (receiver : InstrId → Except DumpStop String) :
    Ty → Data → Except DumpStop String
  | .declared _ canonical, data => canonical.dataText receiver data
  | .plain kind name, data => kind.dataText receiver name data
  | .int name _ _, data =>
    match data with
    | .int n => .ok (Text.integer n)
    | _ => data.mismatch "int" name
  | .float name _, data =>
    match data with
    | .float x => .ok x.fixed
    | _ => data.mismatch "float" name
  | .pointer name child _, data =>
    match data with
    | .pointer pointee => do
      let inner ← pointee.textWith child.name (child.dataText receiver)
      return "&" ++ inner
    | _ => data.mismatch "pointer" name
  | .array name child length, data =>
    match data with
    | .array elements =>
      if (elements.length : Int) = length then do
        let items ← elements.mapM (Value.textWith child.name (child.dataText receiver))
        return name ++ "\x7b" ++ ",".intercalate items ++ "\x7d"
      else .error (.problem (.arrayLength name elements.length))
    | _ => data.mismatch "array" name
  | .maybe name child, data =>
    match data with
    | .absent => .ok "null"
    | .present inner => inner.textWith child.name (child.dataText receiver)
    | _ => data.mismatch "maybe" name
  | .errorUnion name _, _ => .ok ("(error union " ++ name ++ " constant)")
  | .aggregate kind name _, _ => .ok ("(" ++ kind.word ++ " " ++ name ++ " constant)")
  | .unrecognised kind _, _ => .error (.problem (.unknownType kind))

/-- Text of a value read at a type. -/
def Ty.valueText (receiver : InstrId → Except DumpStop String) (t : Ty) (value : Value) :
    Except DumpStop String :=
  value.textWith t.name (t.dataText receiver)

/-- Text of an instruction's own value. -/
def Instruction.constantText (receiver : InstrId → Except DumpStop String)
    (i : Instruction) : Except DumpStop String :=
  match i.value with
  | .runtime => .error (.problem (.runtimeConstant i.id))
  | .undef => .ok "undefined"
  | .zeroes => .ok "zeroes"
  | value =>
    match i.type with
    | none => .error (.problem (.untypedConstant i.id))
    | some t => t.valueText receiver value

namespace Executable

def lookup (e : Executable) (id : InstrId) : Except DumpStop Instruction :=
  match e.instructions.find? id with
  | some i => .ok i
  | none => .error (.problem (.missingInstruction id))

/-- Text of an operand whose chain of receivers visits fewer than `reach` instructions. -/
def operandWithin (e : Executable) : Nat → InstrId → Except DumpStop String
  | 0, _ => .error .endless
  | reach + 1, id => do
    let i ← e.lookup id
    if i.isInlined then i.constantText (e.operandWithin reach)
    else return DumpError.idText i.id

/-- Text of an operand. A chain of receivers without a repetition passes through every
instruction at most once before it ends. -/
def operand (e : Executable) (id : InstrId) : Except DumpStop String :=
  e.operandWithin (e.instructions.entries.length + 1) id

/-- Text of a reference to a block. -/
def blockReference (e : Executable) (id : BlockId) : Except DumpStop String :=
  match e.blocks.find? id with
  | some b => .ok b.label
  | none => .error (.problem (.missingBlock id))

end Executable

end BlockIr
