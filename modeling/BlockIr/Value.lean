import BlockIr.Binary64.Basic
import BlockIr.Ty

/-!
# Values

Every instruction carries an evaluation state. Only a static value has data; undefined and
zeroed values are known without any, and a runtime value exists only during execution and is
always shown by its instruction's id.
-/

namespace BlockIr

/-- Debug id of an instruction. -/
abbrev InstrId := Int

/-- Debug id of a block. -/
abbrev BlockId := Int

mutual

/-- Evaluation state of an instruction, or of a part of a constant. -/
inductive Value where
  | runtime
  | undef
  | zeroes
  | static (data : Data)
  /-- A state this library has no rule for; it counts as known. -/
  | unrecognised (state : String)

/-- Payload of a static value. What kind of payload fits depends on the type it is read
at. -/
inductive Data where
  | void
  | int (n : Int)
  | float (x : Binary64)
  | bool (b : Bool)
  | type (t : Ty)
  | pointer (pointee : Value)
  | fn (symbol : String)
  /-- A lexical block, by its zero-based position. -/
  | scope (line column : Int)
  | array (elements : List Value)
  /-- An optional without a payload. -/
  | absent
  /-- An optional with a payload. -/
  | present (child : Value)
  | namespacePath (path : String)
  /-- A function together with the instruction that is its first argument. -/
  | boundFn (symbol : String) (receiver : InstrId)
  | aggregate
  | pureError
  /-- A payload this library has no rule for. -/
  | unrecognised (kind : String)

end

/-- The word a payload goes by in messages. -/
def Data.kindWord : Data → String
  | .void => "void"
  | .int _ => "int"
  | .float _ => "float"
  | .bool _ => "bool"
  | .type _ => "type"
  | .pointer _ => "pointer"
  | .fn _ => "fn"
  | .scope _ _ => "scope"
  | .array _ => "array"
  | .absent | .present _ => "maybe"
  | .namespacePath _ => "namespace"
  | .boundFn _ _ => "bound_fn"
  | .aggregate => "aggregate"
  | .pureError => "pure_error"
  | .unrecognised kind => kind

/-- Whether a value is known before execution. -/
def Value.isKnown : Value → Bool
  | .runtime => false
  | _ => true

mutual

/-- Instructions a static value names at any depth, left to right. These are not uses. -/
def Value.references : Value → List InstrId
  | .static data => data.references
  | _ => []

def Data.references : Data → List InstrId
  | .pointer pointee => pointee.references
  | .array elements => Value.referencesOfAll elements
  | .present child => child.references
  | .boundFn _ receiver => [receiver]
  | _ => []

def Value.referencesOfAll : List Value → List InstrId
  | [] => []
  | value :: rest => value.references ++ Value.referencesOfAll rest

end

theorem Value.referencesOfAll_eq_flatMap (values : List Value) :
    Value.referencesOfAll values = values.flatMap Value.references := by
  induction values with
  | nil => simp [Value.referencesOfAll]
  | cons value rest ih => simp [Value.referencesOfAll, ih]

end BlockIr
