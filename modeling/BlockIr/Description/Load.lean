import BlockIr.Description.Entry
import BlockIr.Description.Parser
import BlockIr.Executable

/-!
# Loading a description

A description is a mapping with a type table and a list of blocks, each with a list of
instructions. Problems are collected entry by entry, so one bad instruction does not hide the
next; the executable is given only if there are none. Use counts that the description leaves
out are counted once every block is read.

* `Description.load`: the executable of a document.
* `Description.loadSource`: the executable of a source, by any parser. Syntax errors are reported;
  what the parser throws is not a problem of the description but ends the loading itself.
-/

namespace BlockIr.Description

/-- What was read so far. -/
structure Progress where
  blocks : Table BlockId Block
  entries : Table InstrId Entry
  errors : List LoadError

namespace Progress

def start (errors : List LoadError) : Progress := ⟨.empty, .empty, errors⟩

def report (p : Progress) (e : LoadError) : Progress := { p with errors := p.errors ++ [e] }

/-- Read an instruction entry of a block that lists `listed` so far. -/
def readInstruction (types : TypeTable) (node : Node) :
    Progress × List InstrId → Progress × List InstrId
  | (p, listed) =>
    match readEntry types p.entries.contains node with
    | .error e => (p.report e, listed)
    | .ok entry =>
      let id := entry.instruction.id
      ({ p with entries := p.entries.insert id entry }, listed ++ [id])

/-- Read the instruction entries of a block. -/
def readInstructions (types : TypeTable) (nodes : List Node) (p : Progress) :
    Progress × List InstrId :=
  nodes.foldl (fun state node => readInstruction types node state) (p, [])

/-- Read a block entry. -/
def readBlock (types : TypeTable) (p : Progress) (node : Node) : Progress :=
  match readBlockHead p.blocks.contains node with
  | .error e => p.report e
  | .ok (id, nameHint) =>
    let (p, instructions) :=
      match node.listOrEmpty "instructions" with
      | .error e => (p.report e, [])
      | .ok nodes => p.readInstructions types nodes
    { p with blocks := p.blocks.insert id ⟨id, nameHint, instructions⟩ }

/-- Read the block entries. -/
def readBlocks (types : TypeTable) (p : Progress) (nodes : List Node) : Progress :=
  nodes.foldl (readBlock types) p

/-- Number of operand slots that name an instruction, over all entries. -/
def uses (p : Progress) (id : InstrId) : Nat :=
  (p.entries.values.flatMap fun entry => entry.instruction.operands).count id

/-- An instruction with its use count, which is counted unless the entry gives it. -/
def counted (p : Progress) (entry : Entry) : Instruction :=
  if entry.counted then entry.instruction
  else { entry.instruction with refCount := p.uses entry.instruction.id }

/-- The executable that was read. -/
def executable (p : Progress) : Executable :=
  { blocks := p.blocks
    instructions := p.entries.mapValues fun _ entry => p.counted entry }

/-- Instructions that the value of an entry names and that do not exist. -/
def valueErrors (p : Progress) (entry : Entry) : List LoadError :=
  match entry.valueNode with
  | none => []
  | some node =>
    (entry.instruction.references.filter fun id => !p.entries.contains id).map fun id =>
      .fault node.place (.unknownInstruction id)

/-- Every problem: those met while reading, then the names that lead nowhere. -/
def allErrors (p : Progress) : List LoadError :=
  p.errors ++ p.entries.values.flatMap p.valueErrors

def outcome (p : Progress) : Outcome LoadError Executable :=
  if p.allErrors.isEmpty then .ok p.executable else .err p.allErrors

end Progress

/-- Resolve one declared type; a problem leaves the table as it is. -/
def resolveDeclared (root : Node) (state : TypeTable × List LoadError) (name : String) :
    TypeTable × List LoadError :=
  match state.1.resolve name root with
  | .error e => (state.1, state.2 ++ [e])
  | .ok (_, types) => (types, state.2)

/-- The type table of a description, with every declared type resolved. -/
def readTypes (root : Node) : TypeTable × List LoadError :=
  match (do TypeTable.read (← root.field? "types")) with
  | .error e => (.builtin, [e])
  | .ok types =>
    (types.declarations.map Prod.fst).foldl (resolveDeclared root) (types, [])

/-- The block entries of a description. -/
def blockNodes (root : Node) : Reading (List Node) := do (← root.field "blocks").list

/-- Read the blocks of a description after its types. -/
def readProgress (root : Node) : Progress :=
  let (types, errors) := readTypes root
  match blockNodes root with
  | .error e => .start (errors ++ [e])
  | .ok nodes => (Progress.start errors).readBlocks types nodes

/-- The executable a document describes. -/
def load (doc : Doc) : Outcome LoadError Executable :=
  let root := Node.root doc
  match root.entries with
  | .error e => .err [e]
  | .ok _ => (readProgress root).outcome

/-- How often a link is followed on the way to a part of a document. A description is read no
deeper than its types are nested, and every type has an entry of its own. -/
def linkDepth (doc : LinkedDoc) : Nat := 2 * doc.size + 16

/-- The executable a source describes. The contents are not asked for after a syntax error. -/
def loadSource {θ : Type} (parser : Parser θ) (source : String) :
    Except θ (Outcome LoadError Executable) :=
  let parsed := parser source
  if parsed.syntaxErrors.isEmpty then
    parsed.contents.map fun doc => load (doc.unfold (linkDepth doc))
  else .ok (.err (parsed.syntaxErrors.map .syntaxError))

end BlockIr.Description
