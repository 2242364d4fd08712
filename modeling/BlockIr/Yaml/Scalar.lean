import BlockIr.Binary64.Rounding
import BlockIr.Text.Integer
import BlockIr.Yaml.Character

/-!
# Scalars

What a scalar means is decided by rules: a rule looks at the text of a scalar, and if the text
has the shape that the rule asks for, gives its value. A rule belongs to the tag that its values
have.

* `Scalar.same`: when two scalars are the same key.
-/

namespace BlockIr.Yaml

inductive Scalar where
  | null
  | bool (b : Bool)
  | int (n : Int)
  | float (x : Binary64)
  | text (s : String)
  | bytes (values : List Nat)
  /-- A point in time, in milliseconds. -/
  | time (t : Int)
  /-- Merges other mappings, as a key. -/
  | merge

/-- Whether two keys are the same key: same kind and same value. -/
def Scalar.same : Scalar → Scalar → Bool
  | .null, .null => true
  | .bool a, .bool b => a == b
  | .int a, .int b => a == b
  | .float a, .float b =>
    match a, b with
    | .finite s m, .finite t n => m == n && (s == t || m.significand == 0)
    | .infinity s, .infinity t => s == t
    | _, _ => false
  | .text a, .text b => a == b
  | _, _ => false

/-- How a number is spelled, if not as a plain decimal. -/
inductive NumberForm where
  | binary | octal | hexadecimal | exponent | sexagesimal
  deriving DecidableEq, Repr

/-- What a text means. -/
structure Interpretation where
  value : Scalar
  form : Option NumberForm := none
  /-- Digits behind the point that the text ends in, if the last one is a zero. -/
  fractionDigits : Nat := 0

/-- What a rule says about a text. -/
inductive Fit where
  | misfit
  /-- The text has the right shape, but no value. -/
  | broken
  | fits (i : Interpretation)

namespace Fit

/-- A fit for the value of a text, if it has one. -/
def ofOption : Option Interpretation → Fit
  | some i => fits i
  | none => misfit

def isMisfit : Fit → Bool
  | misfit => true
  | _ => false

end Fit

/-- A rule for the scalars of a tag. -/
structure Rule where
  tag : String
  /-- The rule holds for keys only. -/
  keyOnly : Bool := false
  read : List Char → Fit

/-- A tag of the format. -/
def coreTag (name : String) : String := "tag:yaml.org,2002:" ++ name

/-! ## Numbers -/

/-- Split off an optional sign. -/
def signOf : List Char → Bool × List Char
  | '-' :: cs => (true, cs)
  | '+' :: cs => (false, cs)
  | cs => (false, cs)

/-- A signed integer. -/
def signed (negative : Bool) (n : Nat) : Int := if negative then -(n : Int) else n

def octalDigit? (c : Char) : Option Nat :=
  if '0' ≤ c ∧ c ≤ '7' then some (c.toNat - '0'.toNat) else none

def binaryDigit? (c : Char) : Option Nat :=
  if c == '0' then some 0 else if c == '1' then some 1 else none

def decimalDigit? (c : Char) : Option Nat :=
  if c.isDigit then some (c.toNat - '0'.toNat) else none

/-- One or more digits of a base. -/
def inBase? (base : Nat) (digit? : Char → Option Nat) (cs : List Char) : Option Nat :=
  if cs.isEmpty then none
  else cs.foldlM (fun n c => (digit? c).map (n * base + ·)) 0

/-- A decimal in parts: its sign, the digits before the point, those behind it if there is a
point, and its exponent if there is one. -/
structure Decimal where
  negative : Bool
  whole : List Char
  fraction : Option (List Char)
  exponent : Option Int

namespace Decimal

/-- The exponent of a decimal, from its letter to the end. -/
def exponent? : List Char → Option (Option Int)
  | [] => some none
  | c :: cs =>
    if c == 'e' || c == 'E' then
      let (negative, digits) := signOf cs
      (Text.natural? digits).map fun n => some (signed negative n)
    else none

/-- Split a text into the parts of a decimal; `isDigit` holds for what stands between them. -/
def split? (isDigit : Char → Bool) (cs : List Char) : Option Decimal :=
  let (negative, body) := signOf cs
  let whole := body.takeWhile isDigit
  match body.drop whole.length with
  | '.' :: after =>
    let fraction := after.takeWhile isDigit
    (exponent? (after.drop fraction.length)).map fun e => ⟨negative, whole, some fraction, e⟩
  | rest => (exponent? rest).map fun e => ⟨negative, whole, none, e⟩

/-- The number nearest to a decimal; without digits it is none. -/
def value (d : Decimal) : Binary64 :=
  let fraction := d.fraction.getD []
  if d.whole.isEmpty && fraction.isEmpty then .nan
  else
    Binary64.ofDecimal d.negative (Nat.ofDigitChars 10 (d.whole ++ fraction) 0)
      (d.exponent.getD 0 - fraction.length)

/-- Digits behind the point, if the last one is a zero. -/
def fractionDigits (d : Decimal) : Nat :=
  match d.fraction with
  | some fraction => if fraction.getLast? == some '0' then fraction.length else 0
  | none => 0

end Decimal

/-- Not a number, or an infinity. -/
def special? (cs : List Char) : Option Binary64 :=
  if [".nan", ".NaN", ".NAN"].contains (String.ofList cs) then some .nan
  else
    let (negative, body) := signOf cs
    if [".inf", ".Inf", ".INF"].contains (String.ofList body) then some (.infinity negative)
    else none

/-! ## Rules that hold in every version -/

def nullRule : Rule where
  tag := coreTag "null"
  read cs :=
    if ["", "~", "null", "Null", "NULL"].contains (String.ofList cs) then .fits ⟨.null, none, 0⟩
    else .misfit

def specialRule : Rule where
  tag := coreTag "float"
  read cs := .ofOption ((special? cs).map fun x => ⟨.float x, none, 0⟩)

end BlockIr.Yaml
