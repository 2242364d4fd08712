/-!
# Messages and outcomes

A problem is shown as one message: a code, a severity, a place if there is one, and a text.
An operation that reports instead of failing ends in an outcome: its result, if there is one,
and the messages found on the way. Messages keep the order in which they were found and are
grouped by severity.
-/

namespace BlockIr

inductive Severity where
  | error
  | warning
  deriving DecidableEq, Repr

def Severity.word : Severity → String
  | .error => "error"
  | .warning => "warning"

def Severity.all : List Severity := [.error, .warning]

/-- Which part found a problem. -/
inductive Origin where
  | dump
  | description
  | validation
  | usage
  deriving DecidableEq, Repr

/-- The name a problem's family goes by. -/
def Origin.word : Origin → String
  | .dump => "DumpError"
  | .description => "LoaderError"
  | .validation => "ValidatorError"
  | .usage => "UsageError"

/-- One problem as it is shown. -/
structure Message where
  origin : Origin
  code : String
  severity : Severity
  location : Option String
  text : String
  deriving DecidableEq, Repr

/-- The line a message is printed as. -/
def Message.line (m : Message) : String :=
  m.severity.word ++ " [" ++ m.code ++ "]: " ++ m.text

/-- Problems that can be shown as a message. -/
class Diagnostic (ε : Type) where
  message : ε → Message

export Diagnostic (message)

instance : Diagnostic Message := ⟨id⟩

/-- A base text, with a detail after a colon unless the detail is empty. -/
def withDetail (base detail : String) : String :=
  if detail = "" then base else base ++ ": " ++ detail

/-- What an operation that reports its problems ends in. -/
structure Outcome (ε α : Type) where
  value : Option α
  messages : List ε

namespace Outcome

variable {ε α β : Type}

/-- A result without messages. -/
def ok (value : α) : Outcome ε α := ⟨some value, []⟩

/-- A result that still carries messages. -/
def okWith (value : α) (messages : List ε) : Outcome ε α := ⟨some value, messages⟩

/-- No result. -/
def err (messages : List ε) : Outcome ε α := ⟨none, messages⟩

def success (o : Outcome ε α) : Bool := o.value.isSome

/-- Change the result and keep the messages. -/
def map (f : α → β) (o : Outcome ε α) : Outcome ε β := ⟨o.value.map f, o.messages⟩

variable [Diagnostic ε]

/-- The messages of one severity. -/
def ofSeverity (o : Outcome ε α) (s : Severity) : List ε :=
  o.messages.filter fun m => (message m).severity == s

def errors (o : Outcome ε α) : List ε := o.ofSeverity .error

def warnings (o : Outcome ε α) : List ε := o.ofSeverity .warning

/-- The severities that occur. -/
def severities (o : Outcome ε α) : List Severity :=
  Severity.all.filter fun s => !(o.ofSeverity s).isEmpty

end Outcome

end BlockIr
