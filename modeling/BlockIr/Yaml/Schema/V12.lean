import BlockIr.Yaml.Scalar

/-!
# Scalars of version 1.2

Null, booleans, integers in base 8, 10 and 16, and floats.
-/

namespace BlockIr.Yaml.V12

def boolRule : Rule where
  tag := coreTag "bool"
  read cs :=
    if ["true", "True", "TRUE"].contains (String.ofList cs) then .fits ⟨.bool true, none, 0⟩
    else if ["false", "False", "FALSE"].contains (String.ofList cs) then
      .fits ⟨.bool false, none, 0⟩
    else .misfit

def octalRule : Rule where
  tag := coreTag "int"
  read
    | '0' :: 'o' :: digits =>
      .ofOption ((inBase? 8 octalDigit? digits).map fun n => ⟨.int n, some .octal, 0⟩)
    | _ => .misfit

def intRule : Rule where
  tag := coreTag "int"
  read cs :=
    let (negative, digits) := signOf cs
    .ofOption ((Text.natural? digits).map fun n => ⟨.int (signed negative n), none, 0⟩)

def hexRule : Rule where
  tag := coreTag "int"
  read
    | '0' :: 'x' :: digits =>
      .ofOption ((inBase? 16 hexDigit? digits).map fun n => ⟨.int n, some .hexadecimal, 0⟩)
    | _ => .misfit

/-- The decimal a text spells; digits are needed before the point or behind it. -/
def decimal? (cs : List Char) : Option Decimal :=
  (Decimal.split? Char.isDigit cs).filter fun d =>
    !d.whole.isEmpty || !(d.fraction.getD []).isEmpty

def exponentRule : Rule where
  tag := coreTag "float"
  read cs :=
    match decimal? cs with
    | some d => if d.exponent.isSome then .fits ⟨.float d.value, some .exponent, 0⟩ else .misfit
    | none => .misfit

def floatRule : Rule where
  tag := coreTag "float"
  read cs :=
    match decimal? cs with
    | some d =>
      if d.exponent.isNone && d.fraction.isSome then
        .fits ⟨.float d.value, none, d.fractionDigits⟩
      else .misfit
    | none => .misfit

/-- The rules, in the order in which they are tried. -/
def rules : List Rule :=
  [nullRule, boolRule, octalRule, intRule, hexRule, specialRule, exponentRule, floatRule]

end BlockIr.Yaml.V12
