import BlockIr.Binary64.Rounding
import BlockIr.Command.Flag
import BlockIr.Report
import BlockIr.Text.Integer
import BlockIr.Text.Quoted

/-!
# Command arguments

Arguments are options and files. An option is a word behind two hyphens, with its value behind
an equals sign or in the next argument, or a cluster of letters behind one hyphen; the first
letter that takes a value takes the rest of its cluster, or the next argument if nothing is
left. Two hyphens alone end the options, and a hyphen alone is a file. Of an option that is
repeated the last value counts.

* `uses`: the arguments as option uses and files, in order.
* `parse`: what the command is asked to do. The first option that is used wrongly is reported
  before anything else.
-/

namespace BlockIr.Command

/-- An option as it stands in the arguments. -/
structure OptionUse where
  /-- Nothing if there is no such option. -/
  flag : Option Flag
  /-- The option as it was typed, without a value that is attached to it. -/
  typed : String
  value : Option String
  /-- Whether the value is a part of the same argument. -/
  attached : Bool
  deriving DecidableEq, Repr

inductive ArgumentUse where
  | option (use : OptionUse)
  | file (path : String)
  deriving DecidableEq, Repr

/-- What is wrong with the arguments. -/
inductive UsageError where
  | unknownOption (typed : String)
  | missingValue (flag : Flag)
  | unexpectedValue (flag : Flag)
  /-- The value after an option looks like another option. -/
  | ambiguousValue (flag : Flag) (typed : String)
  | noFile
  | extraFiles (paths : List String)
  | badIndent (given : String)
  deriving DecidableEq, Repr

namespace UsageError

def text : UsageError → String
  | unknownOption typed =>
    "Unknown option '" ++ typed ++
      "'. To specify a positional argument starting with a '-', place it at the end of the" ++
      " command after '--', as in '-- " ++ Text.quoted typed
  | missingValue flag => "Option '" ++ flag.spellings ++ " <value>' argument missing"
  | unexpectedValue flag => "Option '" ++ flag.spellings ++ "' does not take an argument"
  | ambiguousValue flag typed =>
    "Option '" ++ typed ++ "' argument is ambiguous.\n" ++
      "Did you forget to specify the option argument for '" ++ typed ++ "'?\n" ++
      "To specify an option argument starting with a dash use " ++
      (if typed.startsWith "--" then "'" ++ typed ++ "=-XYZ'."
       else "'--" ++ flag.word ++ "=-XYZ' or '" ++ typed ++ "-XYZ'.")
  | noFile => "No input file given"
  | extraFiles paths => "Unexpected arguments: " ++ " ".intercalate paths
  | badIndent given => "--indent expects a non-negative integer, got '" ++ given ++ "'"

instance : Diagnostic UsageError where
  message e :=
    { origin := .usage
      code := "IRC001"
      severity := .error
      location := none
      text := e.text }

end UsageError

/-! ## Arguments as option uses and files -/

/-- Whether an option takes a value. -/
def wantsValue (flag : Option Flag) : Bool := (flag.map Flag.takesValue).getD false

/-- How a cluster of letters ends. -/
inductive ClusterEnd where
  | complete
  /-- The last letter takes the next argument as its value. -/
  | awaiting (flag : Option Flag) (typed : String)
  /-- A hyphen ends the options; the letters behind it are files. -/
  | closed (files : List String)

/-- The argument a single letter stands for. -/
def letterText (c : Char) : String := String.ofList ['-', c]

/-- The letters of a cluster as arguments of their own. A letter that takes a value keeps the
rest of the cluster. -/
def splitCluster : List Char → List String
  | [] => []
  | c :: rest =>
    if wantsValue (Flag.ofLetter? c) && !rest.isEmpty then [String.ofList ('-' :: c :: rest)]
    else letterText c :: splitCluster rest

/-- The option uses of a cluster, and how it ends. -/
def clusterUses : List Char → List OptionUse × ClusterEnd
  | [] => ([], .complete)
  | c :: rest =>
    let flag := Flag.ofLetter? c
    if c = '-' then ([], .closed (splitCluster rest))
    else if wantsValue flag then
      if rest.isEmpty then ([], .awaiting flag (letterText c))
      else ([⟨flag, letterText c, some (String.ofList rest), true⟩], .complete)
    else
      let (more, ending) := clusterUses rest
      (⟨flag, letterText c, none, false⟩ :: more, ending)

/-- What one argument is, apart from the arguments behind it. -/
inductive Form where
  | terminator
  | file
  | cluster (letters : List Char)
  | word (flag : Option Flag) (typed : String)
  | wordWithValue (use : OptionUse)

/-- The form of a word behind two hyphens. An equals sign right behind them belongs to the
word unless another one follows. -/
def wordForm (chars : List Char) : Form :=
  if (chars.drop 1).contains '=' then
    let name := chars.takeWhile (· != '=')
    let value := chars.drop (name.length + 1)
    .wordWithValue
      ⟨Flag.ofWord? (String.ofList name), String.ofList ('-' :: '-' :: name),
        some (String.ofList value), true⟩
  else .word (Flag.ofWord? (String.ofList chars)) (String.ofList ('-' :: '-' :: chars))

def formOf (argument : String) : Form :=
  match argument.toList with
  | ['-', '-'] => .terminator
  | '-' :: '-' :: chars => wordForm chars
  | '-' :: c :: rest => .cluster (c :: rest)
  | _ => .file

/-- Use of an option that takes the next argument as its value, if there is one. -/
def useWith (flag : Option Flag) (typed : String) (value : Option String) : ArgumentUse :=
  .option ⟨flag, typed, value, false⟩

/-- The arguments as option uses and files. -/
def uses : List String → List ArgumentUse
  | [] => []
  | argument :: rest =>
    match formOf argument with
    | .terminator => rest.map .file
    | .file => .file argument :: uses rest
    | .wordWithValue use => .option use :: uses rest
    | .word flag typed =>
      if wantsValue flag then
        match rest with
        | [] => [useWith flag typed none]
        | value :: rest => useWith flag typed (some value) :: uses rest
      else useWith flag typed none :: uses rest
    | .cluster letters =>
      let (options, ending) := clusterUses letters
      options.map .option ++
        match ending with
        | .complete => uses rest
        | .closed files => files.map .file ++ rest.map .file
        | .awaiting flag typed =>
          match rest with
          | [] => [useWith flag typed none]
          | value :: rest => useWith flag typed (some value) :: uses rest

/-! ## What is asked for -/

structure DumpOptions where
  file : String
  /-- Blanks before every line. -/
  indent : Binary64
  validate : Bool
  output : Option String
  deriving DecidableEq

inductive Request where
  | help
  | dump (options : DumpOptions)
  deriving DecidableEq

/-- Options and files met so far. -/
structure Given where
  indent : Option String
  validate : Bool
  output : Option String
  help : Bool
  files : List String

def Given.none : Given := ⟨.none, false, .none, false, []⟩

/-- Whether a text looks like an option. -/
def looksLikeOption (s : String) : Bool :=
  match s.toList with
  | '-' :: _ :: _ => true
  | _ => false

/-- The option of a use, unless it is used wrongly. -/
def OptionUse.check (use : OptionUse) : Except UsageError Flag :=
  match use.flag with
  | none => .error (.unknownOption use.typed)
  | some flag =>
    match flag.takesValue, use.value with
    | true, none => .error (.missingValue flag)
    | false, some _ => .error (.unexpectedValue flag)
    | false, none => .ok flag
    | true, some value =>
      if !use.attached && looksLikeOption value then .error (.ambiguousValue flag use.typed)
      else .ok flag

/-- Take one more use into account. -/
def Given.add (given : Given) : ArgumentUse → Except UsageError Given
  | .file path => .ok { given with files := given.files ++ [path] }
  | .option use => do
    match ← use.check with
    | .indent => return { given with indent := use.value }
    | .validate => return { given with validate := true }
    | .output => return { given with output := use.value }
    | .help => return { given with help := true }

/-- The number of blanks an indent text asks for; a huge one is rounded. -/
def parseIndent : Option String → Except UsageError Binary64
  | none => .ok .zero
  | some s =>
    match Text.natural? s.toList with
    | some n => .ok (.ofInt n)
    | none => .error (.badIndent s)

/-- What the options and files ask for. -/
def Given.request (given : Given) : Except UsageError Request :=
  if given.help then .ok .help
  else
    match given.files with
    | [] => .error .noFile
    | [file] => do
      let indent ← parseIndent given.indent
      return .dump ⟨file, indent, given.validate, given.output⟩
    | _ :: extra => .error (.extraFiles extra)

/-- What the arguments ask for. -/
def parse (arguments : List String) : Except UsageError Request := do
  (← (uses arguments).foldlM Given.add Given.none).request

end BlockIr.Command
