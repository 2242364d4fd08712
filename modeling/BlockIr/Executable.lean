import BlockIr.Instruction.Basic
import BlockIr.Table

/-!
# Executables

Blocks are kept in declaration order and instructions in one arena for all blocks. A block
lists its instructions by id. Nothing in the type forces a listed id to exist, or an entry to
be stored under its own id: `BlockIr.Validation` checks both.
-/

namespace BlockIr

/-- A straight-line sequence of instructions. -/
structure Block where
  id : BlockId
  /-- Several blocks may share a hint. -/
  nameHint : String
  instructions : List InstrId
  deriving DecidableEq, Repr

/-- Text of a block's label and of every reference to it. -/
def Block.label (b : Block) : String := b.nameHint ++ "_" ++ Text.integer b.id

/-- What a dump shows. -/
structure Executable where
  blocks : Table BlockId Block
  instructions : Table InstrId Instruction

namespace Executable

def empty : Executable := ⟨.empty, .empty⟩

instance : Inhabited Executable := ⟨empty⟩

/-- Every operand slot of every instruction, in arena order. -/
def operandSlots (e : Executable) : List InstrId :=
  e.instructions.values.flatMap Instruction.operands

/-- Number of operand slots that name `id`. -/
def useCount (e : Executable) (id : InstrId) : Nat := e.operandSlots.count id

end Executable

end BlockIr
