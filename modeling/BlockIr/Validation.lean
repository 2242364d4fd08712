import BlockIr.Dump.Error
import BlockIr.Executable

/-!
# Validation

A validation looks at the structure of an executable: where entries are stored, which block
owns which instruction, and whether ids that are referred to exist. It reports every problem
it finds, in a fixed order: the blocks, then the owners of the instructions, then the
instructions one by one, then the use counts. Warnings do not make an executable invalid.
-/

namespace BlockIr

inductive Issue where
  | duplicateBlock (label : String) (id : BlockId)
  | misplacedBlock (label : String) (key id : BlockId)
  | unknownListed (label : String) (id : InstrId)
  | emptyBlock (label : String)
  | unterminated (label kind : String)
  | orphan (key : InstrId)
  | shared (key : InstrId) (owners : List String)
  | misplacedInstruction (key id : InstrId)
  | missingOperand (key operand : InstrId)
  | missingReference (key reference : InstrId)
  | missingTarget (key : InstrId) (target : BlockId)
  | emptyPhi (key : InstrId)
  | miscounted (key : InstrId) (given : Int) (counted : Nat)
  deriving DecidableEq, Repr

namespace Issue

def code : Issue → String
  | duplicateBlock .. => "IRV001"
  | misplacedBlock .. | misplacedInstruction .. => "IRV002"
  | orphan _ => "IRV003"
  | shared .. => "IRV004"
  | unknownListed .. => "IRV005"
  | missingOperand .. | missingReference .. => "IRV006"
  | missingTarget .. => "IRV007"
  | emptyPhi _ => "IRV008"
  | miscounted .. => "IRV101"
  | emptyBlock _ | unterminated .. => "IRV102"

def severity : Issue → Severity
  | miscounted .. | emptyBlock _ | unterminated .. => .warning
  | _ => .error

/-- The block label or instruction key a problem is found at. -/
def location : Issue → String
  | duplicateBlock label _ | misplacedBlock label _ _ | unknownListed label _
  | emptyBlock label | unterminated label _ => label
  | orphan key | shared key _ | misplacedInstruction key _ | missingOperand key _
  | missingReference key _ | missingTarget key _ | emptyPhi key | miscounted key _ _ =>
    DumpError.idText key

def text : Issue → String
  | duplicateBlock _ id => "Block id " ++ Text.integer id ++ " is declared more than once"
  | misplacedBlock _ key id =>
    "Block stored under id " ++ Text.integer key ++ " has id " ++ Text.integer id
  | unknownListed _ id => "Block lists " ++ DumpError.idText id ++ ", which does not exist"
  | emptyBlock _ => "Block is empty"
  | unterminated _ kind => "Block ends with " ++ kind ++ " instead of a terminator"
  | orphan _ => "Instruction belongs to no block"
  | shared _ owners => "Instruction is listed by several blocks: " ++ ", ".intercalate owners
  | misplacedInstruction key id =>
    "Instruction stored under id " ++ Text.integer key ++ " has id " ++ Text.integer id
  | missingOperand _ operand => "Operand " ++ DumpError.idText operand ++ " does not exist"
  | missingReference _ reference =>
    "Value refers to " ++ DumpError.idText reference ++ ", which does not exist"
  | missingTarget _ target => "Block " ++ Text.integer target ++ " does not exist"
  | emptyPhi _ => "Phi has no incoming edges"
  | miscounted _ given counted =>
    "Use count is " ++ Text.integer given ++ " but " ++ Text.integer counted ++
      " uses were found"

instance : Diagnostic Issue where
  message issue :=
    { origin := .validation
      code := issue.code
      severity := issue.severity
      location := some issue.location
      text := issue.location ++ ": " ++ issue.text }

end Issue

namespace Executable

def hasInstruction (e : Executable) (id : InstrId) : Bool := e.instructions.contains id

def hasBlock (e : Executable) (id : BlockId) : Bool := e.blocks.contains id

/-- Ids of the blocks that list an instruction, one entry per listing. -/
def owners (e : Executable) (id : InstrId) : List BlockId :=
  e.blocks.values.flatMap fun b => (b.instructions.filter (· = id)).map fun _ => b.id

/-- How an owner is named in a message. -/
def ownerText (e : Executable) (id : BlockId) : String :=
  match e.blocks.find? id with
  | some b => b.label
  | none => Text.integer id

/-- Problems of a block's last instruction. -/
def endIssues (e : Executable) (b : Block) : List Issue :=
  match b.instructions.getLast? with
  | none => [.emptyBlock b.label]
  | some last =>
    match e.instructions.find? last with
    | some i => if i.isTerminator then [] else [.unterminated b.label i.operation.kindWord]
    | none => []

/-- Problems of the block stored under `key` after blocks with the ids `earlier`. -/
def blockIssues (e : Executable) (earlier : List BlockId) (key : BlockId) (b : Block) :
    List Issue :=
  (if b.id ∈ earlier then [.duplicateBlock b.label b.id] else []) ++
  (if key ≠ b.id then [.misplacedBlock b.label key b.id] else []) ++
  (b.instructions.filter fun id => !e.hasInstruction id).map (.unknownListed b.label) ++
  e.endIssues b

/-- Problems of blocks that follow blocks with the ids `earlier`. -/
def blocksIssues (e : Executable) : List BlockId → List (BlockId × Block) → List Issue
  | _, [] => []
  | earlier, (key, b) :: rest =>
    e.blockIssues earlier key b ++ e.blocksIssues (b.id :: earlier) rest

/-- Problems of an instruction's owners. -/
def ownerIssues (e : Executable) (key : InstrId) : List Issue :=
  match e.owners key with
  | [] => [.orphan key]
  | [_] => []
  | owners => [.shared key (owners.map e.ownerText)]

/-- Problems of the instruction stored under `key`. -/
def instructionIssues (e : Executable) (key : InstrId) (i : Instruction) : List Issue :=
  (if key ≠ i.id then [.misplacedInstruction key i.id] else []) ++
  (i.operands.filter fun id => !e.hasInstruction id).map (.missingOperand key) ++
  (i.references.filter fun id => !e.hasInstruction id).map (.missingReference key) ++
  (i.targets.filter fun id => !e.hasBlock id).map (.missingTarget key) ++
  (match i.operation with
    | .phi [] => [.emptyPhi key]
    | _ => [])

/-- Problem of an instruction's use count. -/
def countIssues (e : Executable) (key : InstrId) (i : Instruction) : List Issue :=
  if !i.hasSideEffects && i.refCount != e.useCount key then
    [.miscounted key i.refCount (e.useCount key)]
  else []

/-- Every problem, in the order of the report. -/
def issues (e : Executable) : List Issue :=
  e.blocksIssues [] e.blocks.entries ++
  e.instructions.keys.flatMap e.ownerIssues ++
  e.instructions.entries.flatMap (fun entry => e.instructionIssues entry.1 entry.2) ++
  e.instructions.entries.flatMap (fun entry => e.countIssues entry.1 entry.2)

/-- Check the structure of an executable. It passes when no problem is an error. -/
def validate (e : Executable) : Outcome Issue Executable :=
  if e.issues.any (fun issue => issue.severity == .error) then .err e.issues
  else .okWith e e.issues

end Executable

end BlockIr
