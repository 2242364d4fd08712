import BlockIr.Yaml.Scalar
import BlockIr.Yaml.Timestamp

/-!
# Scalars of version 1.1

More words are booleans than in later versions, numbers may hold underscores and may be written
in base 60, and there are timestamps and merge keys. A number may have the shape that a rule
asks for and yet no digits.
-/

namespace BlockIr.Yaml.V11

def trueWords : List String :=
  ["Y", "y", "yes", "Yes", "YES", "true", "True", "TRUE", "on", "On", "ON"]

def falseWords : List String :=
  ["N", "n", "no", "No", "NO", "false", "False", "FALSE", "off", "Off", "OFF"]

def trueRule : Rule where
  tag := coreTag "bool"
  read cs :=
    if trueWords.contains (String.ofList cs) then .fits ⟨.bool true, none, 0⟩ else .misfit

def falseRule : Rule where
  tag := coreTag "bool"
  read cs :=
    if falseWords.contains (String.ofList cs) then .fits ⟨.bool false, none, 0⟩ else .misfit

def dropUnderscores (cs : List Char) : List Char := cs.filter (· != '_')

/-- An integer of a base behind its sign and its mark. -/
def intIn (base : Nat) (digit? : Char → Option Nat) (form : Option NumberForm)
    (negative : Bool) (body : List Char) : Fit :=
  if body.isEmpty || !body.all (fun c => c == '_' || (digit? c).isSome) then .misfit
  else
    match inBase? base digit? (dropUnderscores body) with
    | some n => .fits ⟨.int (signed negative n), form, 0⟩
    | none => .broken

def binaryRule : Rule where
  tag := coreTag "int"
  read cs :=
    match signOf cs with
    | (negative, '0' :: 'b' :: body) => intIn 2 binaryDigit? (some .binary) negative body
    | _ => .misfit

def octalRule : Rule where
  tag := coreTag "int"
  read cs :=
    match signOf cs with
    | (negative, '0' :: body) => intIn 8 octalDigit? (some .octal) negative body
    | _ => .misfit

def intRule : Rule where
  tag := coreTag "int"
  read cs :=
    match signOf cs with
    | (negative, c :: body) =>
      if c.isDigit then intIn 10 decimalDigit? none negative (c :: body) else .misfit
    | _ => .misfit

def hexRule : Rule where
  tag := coreTag "int"
  read cs :=
    match signOf cs with
    | (negative, '0' :: 'x' :: body) => intIn 16 hexDigit? (some .hexadecimal) negative body
    | _ => .misfit

/-- The decimal a text spells. It may hold underscores, but does not begin with one, and it may
have no digits. -/
def decimal? (cs : List Char) : Option Decimal :=
  if (signOf cs).2.head? == some '_' then none
  else
    (Decimal.split? (fun c => c.isDigit || c == '_') cs).map fun d =>
      { d with whole := dropUnderscores d.whole, fraction := d.fraction.map dropUnderscores }

def exponentRule : Rule where
  tag := coreTag "float"
  read cs :=
    match decimal? cs with
    | some d => if d.exponent.isSome then .fits ⟨.float d.value, some .exponent, 0⟩ else .misfit
    | none => .misfit

def floatRule : Rule where
  tag := coreTag "float"
  read cs :=
    match decimal? cs with
    | some d =>
      if d.exponent.isNone && d.fraction.isSome then
        .fits ⟨.float d.value, none, d.fractionDigits⟩
      else .misfit
    | none => .misfit

def mergeRule : Rule where
  tag := coreTag "merge"
  keyOnly := true
  read cs := if cs == ['<', '<'] then .fits ⟨.merge, none, 0⟩ else .misfit

/-! ## Base 60 -/

/-- Split a text at its colons. -/
def splitColons : List Char → List (List Char)
  | [] => [[]]
  | c :: rest =>
    if c == ':' then [] :: splitColons rest
    else
      match splitColons rest with
      | part :: parts => (c :: part) :: parts
      | [] => [[c]]

/-- Whether a text is a place of a number in base 60, the first place apart. -/
def isPlace : List Char → Bool
  | [c] => c.isDigit
  | [c, d] => '0' ≤ c && c ≤ '5' && d.isDigit
  | _ => false

/-- Whether a text is the first place of a number in base 60. -/
def isFirstPlace : List Char → Bool
  | c :: rest => c.isDigit && rest.all fun d => d.isDigit || d == '_'
  | [] => false

/-- The places of a number in base 60; there are two at least. -/
def places? (cs : List Char) : Option (List (List Char)) :=
  match splitColons cs with
  | first :: second :: rest =>
    if isFirstPlace first && (second :: rest).all isPlace then
      some (dropUnderscores first :: second :: rest)
    else none
  | _ => none

def sexagesimalRule : Rule where
  tag := coreTag "int"
  read cs :=
    let (negative, body) := signOf cs
    .ofOption ((places? body).map fun places =>
      let n := places.foldl (fun n place => n * 60 + Nat.ofDigitChars 10 place 0) 0
      ⟨.int (signed negative n), some .sexagesimal, 0⟩)

/-- The number nearest to sixty times `total` plus `part`, rounded after each step. -/
def nextPlace (total part : Binary64) : Binary64 :=
  match total with
  | .finite _ t =>
    match Binary64.ofQuotient false (t.toUnits * 60) Binary64.unitsPerOne, part with
    | .finite _ a, .finite _ b =>
      Binary64.ofQuotient false (a.toUnits + b.toUnits) Binary64.unitsPerOne
    | _, _ => .infinity false
  | _ => .infinity false

def sexagesimalFloatRule : Rule where
  tag := coreTag "float"
  read cs :=
    let (negative, body) := signOf cs
    let before := body.takeWhile (· != '.')
    match body.drop before.length with
    | '.' :: fraction =>
      if fraction.all fun c => c.isDigit || c == '_' then
        .ofOption ((places? before).map fun places =>
          let fraction := dropUnderscores fraction
          let last : Decimal := ⟨false, places.getLast?.getD [], some fraction, none⟩
          let parts := places.dropLast.map fun place =>
            Binary64.ofDecimal false (Nat.ofDigitChars 10 place 0) 0
          let x := (parts ++ [last.value]).foldl nextPlace .zero
          ⟨.float (match x with
            | .finite _ m => .finite negative m
            | .infinity _ => .infinity negative
            | .nan => .nan), some .sexagesimal, 0⟩)
      else .misfit
    | _ => .misfit

/-! ## Timestamps -/

def timestampRule : Rule where
  tag := coreTag "timestamp"
  read cs := .ofOption ((Timestamp.read? cs).map fun t => ⟨.time t, none, 0⟩)

/-- The rules, in the order in which they are tried. -/
def rules : List Rule :=
  [nullRule, trueRule, falseRule, binaryRule, octalRule, intRule, hexRule, specialRule,
   exponentRule, floatRule, mergeRule, sexagesimalRule, sexagesimalFloatRule, timestampRule]

end BlockIr.Yaml.V11
