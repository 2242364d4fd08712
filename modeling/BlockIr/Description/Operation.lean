import BlockIr.Description.TypeTable
import BlockIr.Instruction.Basic

/-!
# Operations of a description

An instruction entry names its kind and has one field for every part of its operation.
Operands are instruction ids and branch targets are block ids.

* `operationReader?`: how the fields of a kind are read.
-/

namespace BlockIr

namespace Node

/-- The ids of a list. -/
def ids (node : Node) (key : String) : Reading (List Int) := do
  (← node.listOrEmpty key).mapM index

/-- A text under a key. -/
def name (node : Node) (key : String) : Reading String := do
  (← node.field key).text

end Node

/-- A storage slot under the key `variable`. -/
def readVariable (node : Node) : Reading Variable := do
  let entry ← node.field "variable"
  let name ← entry.name "name"
  let isConst ← entry.boolOr "isConst" false
  return ⟨name, isConst, ← entry.boolOr "isInline" false⟩

/-- A callee is named by a text, or else an operand. -/
def readCallee (node : Node) : Reading Callee :=
  match node.doc with
  | .text symbol => return .fn symbol
  | _ => .operand <$> node.index

def readPhiEdge (node : Node) : Reading PhiEdge := do
  let block ← node.id "block"
  return ⟨block, ← node.id "value"⟩

def readSwitchCase (node : Node) : Reading SwitchCase := do
  let value ← node.id "value"
  return ⟨value, ← node.id "block"⟩

def readFieldInit (node : Node) : Reading FieldInit := do
  let field ← node.name "name"
  return ⟨field, ← node.id "value"⟩

/-- The name of a field of a type. It has to be one of the declared fields, if the type
declares any. -/
def readFieldOf (type : Ty) (node : Node) : Reading String := do
  let field ← node.text
  match type.canonical with
  | .aggregate _ name fields =>
    if fields.isEmpty || fields.contains field then return field
    else node.fail (.unknownField name field)
  | _ => return field

def readStructField (type : Ty) (node : Node) : Reading FieldInit := do
  let field ← readFieldOf type (← node.field "field")
  return ⟨field, ← node.id "value"⟩

/-- An output with a result type is the result; any other writes a variable. -/
def readAsmTarget (node : Node) : Reading AsmTarget :=
  if node.has "returnType" then .result <$> node.id "returnType"
  else .slot <$> node.name "variable"

def readAsmOutput (node : Node) : Reading AsmOutput := do
  let symbolicName ← node.name "symbolicName"
  let constraint ← node.name "constraint"
  return ⟨symbolicName, constraint, ← readAsmTarget node⟩

def readAsmInput (node : Node) : Reading AsmInput := do
  let symbolicName ← node.name "symbolicName"
  let constraint ← node.name "constraint"
  return ⟨symbolicName, constraint, ← node.id "operand"⟩

/-- How the operation of an entry is read. -/
abbrev OperationReader := TypeTable → Node → Reading Operation

/-- Operations of one operand. -/
def oneOperand (make : InstrId → Operation) (key : String) : OperationReader := fun _ node =>
  make <$> node.id key

/-- Operations of two operands. -/
def twoOperands (make : InstrId → InstrId → Operation) (first second : String) :
    OperationReader := fun _ node => do
  let a ← node.id first
  return make a (← node.id second)

/-- Operations of an operand and a switch. -/
def operandAndFlag (make : Int → Bool → Operation) (key flag : String) (default : Bool) :
    OperationReader := fun _ node => do
  let a ← node.id key
  return make a (← node.boolOr flag default)

/-- Operations of an operand and a field name. -/
def operandAndField (make : InstrId → String → Operation) (key field : String) :
    OperationReader := fun _ node => do
  let a ← node.id key
  return make a (← node.name field)

def readBinary : OperationReader := fun _ node => do
  let op ← (← node.field "op").word BinaryOp.ofWord? .unknownOperator
  let lhs ← node.id "lhs"
  return .binary op lhs (← node.id "rhs")

def readUnary : OperationReader := fun _ node => do
  let op ← (← node.field "op").word UnaryOp.ofWord? .unknownOperator
  return .unary op (← node.id "operand")

def readDeclVar : OperationReader := fun _ node => do
  let slot ← readVariable node
  let varType ← if node.has "varType" then some <$> node.id "varType" else pure none
  return .declVar slot varType (← node.id "init")

def readCast : OperationReader := fun types node => do
  let operand ← node.id "operand"
  return .cast operand (← types.lookup (← node.field "destType"))

def readCall : OperationReader := fun _ node => do
  let callee ← readCallee (← node.field "callee")
  return .call callee (← node.ids "args")

def readCondBr : OperationReader := fun _ node => do
  let condition ← node.id "condition"
  let thenBlock ← node.id "thenBlock"
  let elseBlock ← node.id "elseBlock"
  return .condBr condition thenBlock elseBlock (← node.boolOr "isInline" false)

def readPhi : OperationReader := fun _ node => do
  return .phi (← (← node.listOrEmpty "incoming").mapM readPhiEdge)

def readSwitchBr : OperationReader := fun _ node => do
  let target ← node.id "target"
  let cases ← (← node.listOrEmpty "cases").mapM readSwitchCase
  let elseBlock ← node.id "elseBlock"
  return .switchBr target cases elseBlock (← node.boolOr "isInline" false)

def readContainerInitList : OperationReader := fun _ node => do
  let type ← node.id "containerType"
  return .containerInitList type (← node.ids "items")

def readContainerInitFields : OperationReader := fun _ node => do
  let type ← node.id "containerType"
  return .containerInitFields type (← (← node.listOrEmpty "fields").mapM readFieldInit)

def readStructInit : OperationReader := fun types node => do
  let type ← types.lookup (← node.field "structType")
  return .structInit type (← (← node.listOrEmpty "fields").mapM (readStructField type))

def readElemPtr : OperationReader := fun _ node => do
  let array ← node.id "arrayPtr"
  let index ← node.id "index"
  return .elemPtr array index (← node.boolOr "safetyCheckOn" true)

def readAsm : OperationReader := fun _ node => do
  let template ← node.name "template"
  let outputs ← (← node.listOrEmpty "outputs").mapM readAsmOutput
  let inputs ← (← node.listOrEmpty "inputs").mapM readAsmInput
  let clobbers ← (← node.listOrEmpty "clobbers").mapM Node.text
  return .asm template outputs inputs clobbers (← node.boolOr "isVolatile" false)

/-- How the fields of a kind are read, if there is such a kind. -/
def operationReader? : String → Option OperationReader
  | "return" => some (oneOperand .ret "operand")
  | "const" => some fun _ _ => return .const
  | "bin_op" => some readBinary
  | "un_op" => some readUnary
  | "decl_var" => some readDeclVar
  | "cast" => some readCast
  | "call" => some readCall
  | "cond_br" => some readCondBr
  | "br" => some (operandAndFlag .br "dest" "isInline" false)
  | "phi" => some readPhi
  | "switch_br" => some readSwitchBr
  | "switch_var" => some (twoOperands .switchVar "targetPtr" "prong")
  | "switch_target" => some (oneOperand .switchTarget "targetPtr")
  | "unreachable" => some fun _ _ => return .unreachable
  | "container_init_list" => some readContainerInitList
  | "container_init_fields" => some readContainerInitFields
  | "struct_init" => some readStructInit
  | "elem_ptr" => some readElemPtr
  | "var_ptr" => some fun _ node => .varPtr <$> readVariable node
  | "load_ptr" => some (oneOperand .loadPtr "ptr")
  | "store_ptr" => some (twoOperands .storePtr "ptr" "operand")
  | "field_ptr" => some (operandAndField .fieldPtr "containerPtr" "fieldName")
  | "struct_field_ptr" => some (operandAndField .structFieldPtr "structPtr" "field")
  | "enum_field_ptr" => some (operandAndField .enumFieldPtr "enumPtr" "field")
  | "test_null" => some (oneOperand .testNull "operand")
  | "unwrap_maybe" => some (operandAndFlag .unwrapMaybe "operand" "safetyCheckOn" true)
  | "array_type" => some (twoOperands .arrayType "size" "childType")
  | "slice_type" => some (operandAndFlag .sliceType "childType" "isConst" false)
  | "enum_tag" => some (oneOperand .enumTag "operand")
  | "array_len" => some (oneOperand .arrayLen "operand")
  | "ref" => some (oneOperand .ref "operand")
  | "asm" => some readAsm
  | kind =>
    match Builtin.ofWord? kind, Setting.ofWord? kind with
    | some fn, _ => some (oneOperand (.builtin fn) fn.argumentField)
    | none, some s => some (twoOperands (.setting s) s.subjectField s.stateField)
    | none, none => none

end BlockIr
