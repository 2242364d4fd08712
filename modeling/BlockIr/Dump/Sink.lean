import BlockIr.Dump.Error

/-!
# Destinations of a dump

A buffer keeps everything written to it. A stream hands chunks on until it fails; the first
failure is kept, and every later write reports it.
-/

namespace BlockIr

/-- Something text can be written to. -/
class Sink (σ : Type) where
  write : σ → String → Except DumpError σ

/-- Everything written so far. -/
structure BufferSink where
  text : String
  deriving DecidableEq, Repr

namespace BufferSink

def empty : BufferSink := ⟨""⟩

instance : Sink BufferSink where
  write sink chunk := .ok ⟨sink.text ++ chunk⟩

end BufferSink

/-- Chunks handed to a stream, and the first failure it reported. -/
structure StreamSink where
  written : List String
  failure : Option String
  deriving DecidableEq, Repr

namespace StreamSink

def empty : StreamSink := ⟨[], none⟩

instance : Sink StreamSink where
  write sink chunk :=
    match sink.failure with
    | some reason => .error (.streamFailed reason)
    | none => .ok { sink with written := sink.written ++ [chunk] }

/-- The stream reports a failure; only the first one counts. -/
def fail (sink : StreamSink) (reason : String) : StreamSink :=
  { sink with failure := sink.failure <|> some reason }

end StreamSink

end BlockIr
