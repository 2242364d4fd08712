import BlockIr.Description.Constant
import BlockIr.Description.Operation

/-!
# Block and instruction entries

An instruction entry is read in a fixed order: the kind, the id, the type, the use count, the
value, and then what the kind asks for. The first problem ends it.
-/

namespace BlockIr

/-- An instruction entry that was read. -/
structure Entry where
  instruction : Instruction
  /-- Whether the entry gives the use count itself. -/
  counted : Bool
  /-- The node the value was read from. -/
  valueNode : Option Node

/-- How the operation of an entry is read, by its kind. -/
def readKind (node : Node) : Reading OperationReader := do
  (← node.field "kind").word operationReader? .unknownKind

/-- The id of an entry, unless it is taken. -/
def readFreshId (node : Node) (taken : Int → Bool) (cause : Int → Cause) : Reading Int := do
  let entry ← node.field "id"
  let id ← entry.index
  if taken id then entry.fail (cause id) else return id

/-- The type of an entry; it may be left out or null. -/
def readType (types : TypeTable) (node : Node) : Reading (Option Ty) := do
  match ← node.field? "type" with
  | none => return none
  | some entry => if entry.doc.isNull then return none else some <$> types.lookup entry

/-- The use count of an entry, if it gives one. -/
def readUseCount : Option Node → Reading Int
  | none => return 0
  | some entry => entry.index

/-- Read an instruction entry. -/
def readEntry (types : TypeTable) (taken : InstrId → Bool) (node : Node) : Reading Entry := do
  let reader ← readKind node
  let id ← readFreshId node taken .duplicateInstruction
  let type ← readType types node
  let countNode ← node.field? "refCount"
  let valueNode ← node.field? "value"
  let refCount ← readUseCount countNode
  let value ← readValue types type valueNode
  let operation ← reader types node
  return ⟨⟨id, type, refCount, value, operation⟩, countNode.isSome, valueNode⟩

/-- The name hint of a block entry without one. -/
def defaultHint : String := "block"

/-- Read the id and the name hint of a block entry. -/
def readBlockHead (taken : BlockId → Bool) (node : Node) : Reading (BlockId × String) := do
  let id ← readFreshId node taken .duplicateBlock
  return (id, ← node.textOr "name" defaultHint)

end BlockIr
