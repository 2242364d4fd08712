import BlockIr.Command.Arguments
import BlockIr.Description.Load
import BlockIr.Dump.Basic
import BlockIr.Validation

/-!
# Running the command

The command reads a description, checks it if asked to, and delivers the dump: to standard
output, or as a whole to a file. What it touches outside is a disk, whose reads and writes may
fail with a reason, and a parser of sources. All it does is kept in a transcript.

What a part of the command throws, and is no problem with a code, passes through the command: it
breaks off, and what it delivered until then stays.

* `run`: the transcript of a command.
-/

namespace BlockIr.Command

/-- Files that can be read and written; a failure gives its reason. -/
structure Disk where
  read : String → Except String String
  write : String → String → Except String Unit

/-- A file that the disk refuses. -/
inductive FileError where
  | unreadable (path reason : String)
  | unwritable (path reason : String)
  deriving DecidableEq, Repr

instance : Diagnostic FileError where
  message
    | .unreadable path reason =>
      { origin := .dump
        code := "IRC002"
        severity := .error
        location := some path
        text := "Cannot read " ++ path ++ ": " ++ reason }
    | .unwritable path reason =>
      { origin := .dump
        code := "IRC003"
        severity := .error
        location := some path
        text := "Cannot write " ++ path ++ ": " ++ reason }

/-- What ends a command without an exit code, where `θ` is what the parser may throw. -/
inductive Breakdown (θ : Type) where
  | contents (e : θ)
  | margin (e : MarginError)
  /-- The text of a constant has no end. -/
  | endless
  deriving DecidableEq

/-- A breakdown in words, given those for what the parser throws. -/
def Breakdown.text {θ : Type} (ofThrown : θ → String) : Breakdown θ → String
  | .contents e => ofThrown e
  | .margin e => e.text
  | .endless => "Maximum call stack size exceeded"

inductive Ending (θ : Type) where
  | exit (code : Nat)
  | breakdown (b : Breakdown θ)
  deriving DecidableEq

/-- All that a command did. -/
structure Transcript (θ σ : Type) where
  stdout : σ
  log : List String
  /-- Lines of messages. -/
  errors : List String
  /-- Files written, with their texts. -/
  written : List (String × String)
  ending : Ending θ

namespace Transcript

variable {θ σ : Type}

/-- Nothing done yet. -/
def start (stdout : σ) : Transcript θ σ := ⟨stdout, [], [], [], .exit 0⟩

/-- Show messages. -/
def report {ε : Type} [Diagnostic ε] (t : Transcript θ σ) (problems : List ε) : Transcript θ σ :=
  { t with errors := t.errors ++ problems.map fun e => (message e).line }

/-- Show messages and end with a failure. -/
def fail {ε : Type} [Diagnostic ε] (t : Transcript θ σ) (problems : List ε) : Transcript θ σ :=
  { t.report problems with ending := .exit 1 }

/-- End without an exit code. -/
def breakOff (t : Transcript θ σ) (b : Breakdown θ) : Transcript θ σ :=
  { t with ending := .breakdown b }

/-- End with what stopped the dump: show a problem, or break off if there is none. -/
def stop (t : Transcript θ σ) : DumpStop → Transcript θ σ
  | .problem p => t.fail [p]
  | .endless => t.breakOff .endless

end Transcript

variable {θ σ : Type} [Sink σ]

/-- Write a text to a file. -/
def deliverFile (disk : Disk) (path text : String) (t : Transcript θ σ) : Transcript θ σ :=
  match disk.write path text with
  | .ok () => { t with written := t.written ++ [(path, text)] }
  | .error reason => t.fail [FileError.unwritable path reason]

/-- Dump to standard output; what was written before the dump was stopped stays. -/
def deliverOutput (e : Executable) (margin : Nat) (t : Transcript θ σ) : Transcript θ σ :=
  match e.dump margin t.stdout with
  | (stdout, none) => { t with stdout }
  | (stdout, some stop) => { t with stdout }.stop stop

/-- Deliver the dump of an executable. -/
def deliver (disk : Disk) (options : DumpOptions) (e : Executable) (t : Transcript θ σ) :
    Transcript θ σ :=
  match margin? options.indent, options.output with
  | .error e, _ => t.breakOff (.margin e)
  | .ok margin, none => deliverOutput e margin t
  | .ok margin, some path =>
    match e.format margin with
    | .error stop => t.stop stop
    | .ok text => deliverFile disk path text t

/-- Go on with the result of a step, after its warnings are shown, or fail with its errors. -/
def proceed {ε α : Type} [Diagnostic ε] (o : Outcome ε α)
    (next : α → Transcript θ σ → Transcript θ σ) (t : Transcript θ σ) : Transcript θ σ :=
  let t := t.report o.warnings
  match o.value with
  | none => t.fail o.errors
  | some a => next a t

/-- Check an executable, if asked to, and deliver it. -/
def check (disk : Disk) (options : DumpOptions) (e : Executable) (t : Transcript θ σ) :
    Transcript θ σ :=
  if options.validate then proceed e.validate (deliver disk options) t
  else deliver disk options e t

/-- Read the description and go on with its executable. -/
def dumpFile (parser : Description.Parser θ) (disk : Disk) (options : DumpOptions)
    (t : Transcript θ σ) : Transcript θ σ :=
  match disk.read options.file with
  | .error reason => t.fail [FileError.unreadable options.file reason]
  | .ok source =>
    match Description.loadSource parser source with
    | .error e => t.breakOff (.contents e)
    | .ok loaded => proceed loaded (check disk options) t

/-- The transcript of a command. -/
def run (parser : Description.Parser θ) (disk : Disk) (arguments : List String) (stdout : σ) :
    Transcript θ σ :=
  let t := Transcript.start stdout
  match parse arguments with
  | .error e => t.fail [e]
  | .ok .help => { t with log := helpLines }
  | .ok (.dump options) => dumpFile parser disk options t

end BlockIr.Command
