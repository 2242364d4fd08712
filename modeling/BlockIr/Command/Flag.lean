import BlockIr.Text.Width

/-!
# Options of the command

Every option has a word, most have a letter, and some take a value.

* `helpLines`: what the command says about itself.
-/

namespace BlockIr.Command

inductive Flag where
  | indent | validate | output | help
  deriving DecidableEq, Repr

namespace Flag

/-- The options in the order of the help text. -/
def all : List Flag := [.indent, .validate, .output, .help]

/-- The word behind two hyphens. -/
def word : Flag → String
  | .indent => "indent"
  | .validate => "validate"
  | .output => "output"
  | .help => "help"

/-- The letter behind one hyphen. -/
def letter? : Flag → Option Char
  | .indent => some 'i'
  | .validate => none
  | .output => some 'o'
  | .help => some 'h'

def takesValue : Flag → Bool
  | .indent | .output => true
  | .validate | .help => false

def purpose : Flag → String
  | .indent => "Spaces before every instruction line (default: 0)"
  | .validate => "Check the executable before dumping it"
  | .output => "Write the dump to a file instead of stdout"
  | .help => "Show this help message"

def ofWord? (w : String) : Option Flag := all.find? fun flag => flag.word == w

def ofLetter? (c : Char) : Option Flag := all.find? fun flag => flag.letter? == some c

/-- The spellings of an option as messages show them. -/
def spellings (flag : Flag) : String :=
  let long := "--" ++ flag.word
  match flag.letter? with
  | some c => String.ofList ['-', c] ++ ", " ++ long
  | none => long

/-- The line of an option in the help text. -/
def helpLine (flag : Flag) : String :=
  let short := match flag.letter? with
    | some c => String.ofList ['-', c] ++ ", "
    | none => "    "
  let value := if flag.takesValue then " <" ++ flag.word ++ ">" else ""
  "  " ++ short ++ Text.padRight 20 ("--" ++ flag.word ++ value) ++ " " ++ flag.purpose

end Flag

/-- The help text. -/
def helpLines : List String :=
  ["Dump a mid-level IR executable as text\n",
   "Usage: irdump <file.yaml> [options]",
   "\nOptions:"] ++
  Flag.all.map Flag.helpLine ++
  ["\nExamples:",
   "  irdump examples/return-constant.yaml",
   "  irdump program.yaml --validate --indent 2 --output program.ir"]

end BlockIr.Command
