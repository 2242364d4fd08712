import BlockIr.Executable

/-!
# Building executables

Ids are handed out from two counters, one for blocks and one for instructions, so an id is
never used twice. Every operand slot of a new instruction counts as a use of the instruction
it names; a use of an id that is not in the arena yet is kept aside and counted when the id
is handed out.
-/

namespace BlockIr

/-- An instruction before the builder gives it an id. -/
structure Draft where
  type : Option Ty
  refCount : Int
  value : Value
  operation : Operation

/-- There is no block to append to. -/
structure UnknownBlock where
  id : BlockId
  deriving DecidableEq, Repr

def UnknownBlock.text (e : UnknownBlock) : String := "No block with id " ++ Text.integer e.id

structure Builder where
  executable : Executable
  /-- Uses of ids that are not in the arena yet. -/
  pendingUses : Table InstrId Nat
  nextBlock : Nat
  nextInstruction : Nat

namespace Builder

def empty : Builder := ⟨.empty, .empty, 0, 0⟩

/-- Append an empty block. -/
def block (b : Builder) (nameHint : String) : BlockId × Builder :=
  let id : BlockId := b.nextBlock
  (id,
    { b with
      executable :=
        { b.executable with
          blocks := b.executable.blocks.insert id ⟨id, nameHint, []⟩ }
      nextBlock := b.nextBlock + 1 })

/-- Id of the next instruction that is appended. -/
def peekId (b : Builder) : InstrId := b.nextInstruction

/-- Uses of `id` that were seen before it was handed out. -/
def pending (b : Builder) (id : InstrId) : Nat := (b.pendingUses.find? id).getD 0

/-- Count one use of `id`. -/
def countUse (b : Builder) (id : InstrId) : Builder :=
  if b.executable.instructions.contains id then
    { b with
      executable :=
        { b.executable with
          instructions := b.executable.instructions.modify id fun i =>
            { i with refCount := i.refCount + 1 } } }
  else
    { b with pendingUses := b.pendingUses.insert id (b.pending id + 1) }

/-- Append an instruction to the end of a block. -/
def add (b : Builder) (blockId : BlockId) (draft : Draft) :
    Except UnknownBlock (InstrId × Builder) :=
  if b.executable.blocks.contains blockId then
    let id := b.peekId
    let instruction : Instruction :=
      { id
        type := draft.type
        refCount := draft.refCount + b.pending id
        value := draft.value
        operation := draft.operation }
    let taken :=
      { b with
        pendingUses := b.pendingUses.insert id 0
        nextInstruction := b.nextInstruction + 1 }
    let counted := instruction.operands.foldl countUse taken
    .ok (id,
      { counted with
        executable :=
          { blocks := counted.executable.blocks.modify blockId fun block =>
              { block with instructions := block.instructions ++ [id] }
            instructions := counted.executable.instructions.insert id instruction } })
  else .error ⟨blockId⟩

end Builder

end BlockIr
