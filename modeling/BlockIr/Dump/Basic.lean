import BlockIr.Binary64.Shortest
import BlockIr.Dump.Line
import BlockIr.Dump.Sink

/-!
# Dumps

A dump is a schedule of chunks, block by block: the label, then one line per listed
instruction. Chunks are written as they are produced, so a dump that fails leaves everything
before the failure in its sink.

* `Executable.schedule`: the chunks, in order.
* `Executable.dump`: what a sink holds afterwards, and what stopped the dump.
-/

namespace BlockIr

/-- The label of a block, or the line of a listed instruction. -/
inductive Chunk where
  | label (b : Block)
  | line (id : InstrId)
  deriving DecidableEq, Repr

def Block.chunks (b : Block) : List Chunk := .label b :: b.instructions.map .line

namespace Executable

/-- Everything a dump writes, in order. -/
def schedule (e : Executable) : List Chunk := e.blocks.values.flatMap Block.chunks

/-- Text of one chunk, with its line break. -/
def chunkText (e : Executable) (margin : Nat) : Chunk → Except DumpStop String
  | .label b => .ok (b.label ++ ":\n")
  | .line id => do
    let i ← e.lookup id
    let line ← i.line e margin
    return line ++ "\n"

/-- Write chunks until one has no text or the sink refuses it. -/
def writeChunks {σ : Type} [Sink σ] (e : Executable) (margin : Nat) :
    List Chunk → σ → σ × Option DumpStop
  | [], sink => (sink, none)
  | chunk :: rest, sink =>
    match e.chunkText margin chunk with
    | .error stop => (sink, some stop)
    | .ok text =>
      match Sink.write sink text with
      | .error problem => (sink, some (.problem problem))
      | .ok sink => e.writeChunks margin rest sink

/-- Dump into a sink. -/
def dump {σ : Type} [Sink σ] (e : Executable) (margin : Nat) (sink : σ) :
    σ × Option DumpStop :=
  e.writeChunks margin e.schedule sink

/-- The whole dump as one text. -/
def format (e : Executable) (margin : Nat) : Except DumpStop String :=
  match e.dump margin BufferSink.empty with
  | (sink, none) => .ok sink.text
  | (_, some stop) => .error stop

end Executable

/-- A number that cannot be a margin. -/
structure MarginError where
  given : Binary64
  deriving DecidableEq

def MarginError.text (e : MarginError) : String :=
  "Indent must be a non-negative integer: " ++ e.given.text Binary64.messageStyle

/-- Blanks before every line: any whole number that is not negative. -/
def margin? (number : Binary64) : Except MarginError Nat :=
  match number.toInt? with
  | some (.ofNat n) => .ok n
  | _ => .error ⟨number⟩

end BlockIr
