import BlockIr.Instruction.Operator
import BlockIr.Value

/-!
# Instructions

An instruction is an operation together with what every instruction has: an id, a type once
it is resolved, a use count and an evaluation state. Operands are instruction ids and branch
targets are block ids, so an instruction owns nothing it refers to.

* `Operation.operands`, `Operation.targets`: the ids an operation refers to, in the order a
  dump shows them, one entry per slot.
-/

namespace BlockIr

/-- A named storage slot. -/
structure Variable where
  name : String
  isConst : Bool
  isInline : Bool
  deriving DecidableEq, Repr

/-- Direct calls name the function, indirect calls go through an operand. -/
inductive Callee where
  | fn (symbol : String)
  | operand (id : InstrId)
  deriving DecidableEq, Repr

/-- An edge into a phi: the value the phi has when control comes from the block. -/
structure PhiEdge where
  block : BlockId
  value : InstrId
  deriving DecidableEq, Repr

structure SwitchCase where
  value : InstrId
  block : BlockId
  deriving DecidableEq, Repr

/-- A named field and the value it starts with. -/
structure FieldInit where
  field : String
  value : InstrId
  deriving DecidableEq, Repr

/-- An assembly output writes a variable, or is the result of the whole expression, whose
type is an operand. -/
inductive AsmTarget where
  | slot (name : String)
  | result (type : InstrId)
  deriving DecidableEq, Repr

structure AsmOutput where
  symbolicName : String
  constraint : String
  target : AsmTarget
  deriving DecidableEq, Repr

structure AsmInput where
  symbolicName : String
  constraint : String
  operand : InstrId
  deriving DecidableEq, Repr

/-- What an instruction does. -/
inductive Operation where
  | ret (operand : InstrId)
  /-- Does nothing but carry its value. -/
  | const
  | binary (op : BinaryOp) (lhs rhs : InstrId)
  | unary (op : UnaryOp) (operand : InstrId)
  | declVar (slot : Variable) (varType : Option InstrId) (init : InstrId)
  | cast (operand : InstrId) (dest : Ty)
  | call (callee : Callee) (args : List InstrId)
  | condBr (condition : InstrId) (thenBlock elseBlock : BlockId) (isInline : Bool)
  | br (dest : BlockId) (isInline : Bool)
  | phi (incoming : List PhiEdge)
  | switchBr (target : InstrId) (cases : List SwitchCase) (elseBlock : BlockId)
      (isInline : Bool)
  | switchVar (targetPtr prong : InstrId)
  | switchTarget (targetPtr : InstrId)
  | unreachable
  | containerInitList (containerType : InstrId) (items : List InstrId)
  | containerInitFields (containerType : InstrId) (fields : List FieldInit)
  | structInit (type : Ty) (fields : List FieldInit)
  | elemPtr (arrayPtr index : InstrId) (checked : Bool)
  | varPtr (slot : Variable)
  | loadPtr (ptr : InstrId)
  | storePtr (ptr operand : InstrId)
  | fieldPtr (containerPtr : InstrId) (field : String)
  | structFieldPtr (structPtr : InstrId) (field : String)
  | enumFieldPtr (enumPtr : InstrId) (field : String)
  | testNull (operand : InstrId)
  | unwrapMaybe (operand : InstrId) (checked : Bool)
  | builtin (fn : Builtin) (argument : InstrId)
  | arrayType (size childType : InstrId)
  | sliceType (childType : InstrId) (isConst : Bool)
  | setting (setting : Setting) (subject state : InstrId)
  | enumTag (operand : InstrId)
  | arrayLen (operand : InstrId)
  | ref (operand : InstrId)
  | asm (template : String) (outputs : List AsmOutput) (inputs : List AsmInput)
      (clobbers : List String) (isVolatile : Bool)
  /-- An operation this library has no rule for. -/
  | unrecognised (kind : String)
  deriving DecidableEq, Repr

structure Instruction where
  id : InstrId
  /-- Nothing while the type is not resolved. -/
  type : Option Ty
  /-- Number of uses; only meaningful without side effects. -/
  refCount : Int
  value : Value
  operation : Operation

/-- The type an assembly output takes from an operand. -/
def AsmTarget.operands : AsmTarget → List InstrId
  | .slot _ => []
  | .result type => [type]

def Callee.operands : Callee → List InstrId
  | .fn _ => []
  | .operand id => [id]

namespace Operation

/-- The word an operation goes by in descriptions and messages. -/
def kindWord : Operation → String
  | ret .. => "return"
  | const => "const"
  | binary .. => "bin_op"
  | unary .. => "un_op"
  | declVar .. => "decl_var"
  | cast .. => "cast"
  | call .. => "call"
  | condBr .. => "cond_br"
  | br .. => "br"
  | phi .. => "phi"
  | switchBr .. => "switch_br"
  | switchVar .. => "switch_var"
  | switchTarget .. => "switch_target"
  | unreachable => "unreachable"
  | containerInitList .. => "container_init_list"
  | containerInitFields .. => "container_init_fields"
  | structInit .. => "struct_init"
  | elemPtr .. => "elem_ptr"
  | varPtr .. => "var_ptr"
  | loadPtr .. => "load_ptr"
  | storePtr .. => "store_ptr"
  | fieldPtr .. => "field_ptr"
  | structFieldPtr .. => "struct_field_ptr"
  | enumFieldPtr .. => "enum_field_ptr"
  | testNull .. => "test_null"
  | unwrapMaybe .. => "unwrap_maybe"
  | builtin fn _ => fn.word
  | arrayType .. => "array_type"
  | sliceType .. => "slice_type"
  | setting s _ _ => s.word
  | enumTag .. => "enum_tag"
  | arrayLen .. => "array_len"
  | ref .. => "ref"
  | asm .. => "asm"
  | unrecognised kind => kind

/-- Whether execution matters even when nothing uses the result. -/
def hasSideEffects : Operation → Bool
  | ret .. | declVar .. | call .. | condBr .. | br .. | switchBr .. | unreachable
  | storePtr .. | setting .. => true
  | asm _ _ _ _ isVolatile => isVolatile
  | _ => false

/-- Whether control never passes to the next instruction of the block. -/
def isTerminator : Operation → Bool
  | ret .. | br .. | condBr .. | switchBr .. | unreachable => true
  | _ => false

/-- Instructions an operation reads, in the order a dump shows them, one entry per use. -/
def operands : Operation → List InstrId
  | ret a | unary _ a | cast a _ | condBr a _ _ _ | switchTarget a | loadPtr a | fieldPtr a _
  | structFieldPtr a _ | enumFieldPtr a _ | testNull a | unwrapMaybe a _ | builtin _ a
  | sliceType a _ | enumTag a | arrayLen a | ref a => [a]
  | binary _ a b | switchVar a b | elemPtr a b _ | storePtr a b | arrayType a b
  | setting _ a b => [a, b]
  | const | br .. | unreachable | varPtr _ | unrecognised _ => []
  | declVar _ varType init => varType.toList ++ [init]
  | call callee args => callee.operands ++ args
  | phi incoming => incoming.map PhiEdge.value
  | switchBr target cases _ _ => target :: cases.map SwitchCase.value
  | containerInitList type items => type :: items
  | containerInitFields type fields => type :: fields.map FieldInit.value
  | structInit _ fields => fields.map FieldInit.value
  | asm _ outputs inputs _ _ =>
    outputs.flatMap (fun output => output.target.operands) ++ inputs.map AsmInput.operand

/-- Blocks an operation refers to, in the order a dump shows them. -/
def targets : Operation → List BlockId
  | condBr _ thenBlock elseBlock _ => [thenBlock, elseBlock]
  | br dest _ => [dest]
  | phi incoming => incoming.map PhiEdge.block
  | switchBr _ cases elseBlock _ => cases.map SwitchCase.block ++ [elseBlock]
  | _ => []

end Operation

namespace Instruction

def operands (i : Instruction) : List InstrId := i.operation.operands

def targets (i : Instruction) : List BlockId := i.operation.targets

def hasSideEffects (i : Instruction) : Bool := i.operation.hasSideEffects

def isTerminator (i : Instruction) : Bool := i.operation.isTerminator

/-- Instructions the value names at any depth. -/
def references (i : Instruction) : List InstrId := i.value.references

/-- Whether uses show the value instead of the id. -/
def isInlined (i : Instruction) : Bool := i.value.isKnown

/-- The name shown for the type. -/
def typeName (i : Instruction) : String :=
  match i.type with
  | some type => type.name
  | none => "(unknown)"

end Instruction

end BlockIr
