import BlockIr.Command.Run
import BlockIr.Yaml.Source

/-!
# The program

The file a command names is read before the command runs and the file it writes is written
afterwards. If that fails, the command is run once more with the failure as the answer of the
disk, which decides what is shown.
-/

namespace BlockIr.Command

/-- The text of a file, or why there is none. -/
def readOutside (path : String) : IO (Except String String) := do
  match ← (IO.FS.readFile path).toBaseIO with
  | .ok text => return .ok text
  | .error e => return .error (toString e)

/-- The file the arguments name, with what reading it gives. -/
def readRequested (arguments : List String) : IO (Except String String) :=
  match parse arguments with
  | .ok (.dump options) => readOutside options.file
  | _ => return .error ""

/-- Write the files of a transcript, up to the first failure. -/
def writeOutside : List (String × String) → IO (Except String Unit)
  | [] => return .ok ()
  | (path, text) :: rest => do
    match ← (IO.FS.writeFile path text).toBaseIO with
    | .ok () => writeOutside rest
    | .error e => return .error (toString e)

/-- The transcript of a command run outside. -/
def runOutside (arguments : List String) :
    IO (Transcript Yaml.DocumentError BufferSink) := do
  let source ← readRequested arguments
  let runWith (written : Except String Unit) : Transcript Yaml.DocumentError BufferSink :=
    run Yaml.parse ⟨fun _ => source, fun _ _ => written⟩ arguments BufferSink.empty
  let hoped := runWith (.ok ())
  match ← writeOutside hoped.written with
  | .ok () => return hoped
  | .error reason => return runWith (.error reason)

end BlockIr.Command

open BlockIr BlockIr.Command in
def main (arguments : List String) : IO UInt32 := do
  let transcript ← runOutside arguments
  for line in transcript.log do
    IO.println line
  IO.print transcript.stdout.text
  for line in transcript.errors do
    IO.eprintln line
  match transcript.ending with
  | .exit code => return UInt32.ofNat code
  | .breakdown b =>
    IO.eprintln (b.text Yaml.DocumentError.text)
    return 1
