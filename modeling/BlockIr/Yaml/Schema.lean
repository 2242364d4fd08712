import BlockIr.Yaml.Base64
import BlockIr.Yaml.Schema.V11
import BlockIr.Yaml.Schema.V12

/-!
# Schemas

The version of the format decides by which rules scalars are read. A plain scalar without a tag
is read by the first rule that it fits. A tag asks for the rules of that tag; where none fits,
the scalar is a text. Binary data, timestamps and merge keys may be asked for by their tags in
every version.

* `plain?`, `tagged?`: the meaning of a scalar, unless it is broken.
-/

namespace BlockIr.Yaml

/-- Versions of the format. -/
inductive Version where
  | v11 | v12
  deriving DecidableEq, Repr

namespace Version

def rules : Version → List Rule
  | v11 => V11.rules
  | v12 => V12.rules

/-- Whether some rule fits a text. -/
def anyFits (v : Version) (cs : List Char) : Bool :=
  v.rules.any fun rule => !(rule.read cs).isMisfit

end Version

/-- A text that means itself. -/
def textual (cs : List Char) : Interpretation := ⟨.text (String.ofList cs), none, 0⟩

/-- The meaning of a text by the first rule that it fits. -/
def byRules? : List Rule → List Char → Option Interpretation
  | [], cs => some (textual cs)
  | rule :: rules, cs =>
    match rule.read cs with
    | .misfit => byRules? rules cs
    | .broken => none
    | .fits i => some i

/-- The meaning of a plain scalar without a tag. -/
def plain? (v : Version) (atKey : Bool) (cs : List Char) : Option Interpretation :=
  byRules? (v.rules.filter fun rule => atKey || !rule.keyOnly) cs

/-- The meaning of a text under a tag by which it is asked for although no rule fits. -/
def known? (v : Version) (tag : String) (cs : List Char) : Option Interpretation :=
  if tag = coreTag "binary" then some ⟨.bytes (Base64.decode cs), none, 0⟩
  else if v = .v12 && tag = coreTag "merge" then some ⟨.merge, none, 0⟩
  else if v = .v12 && tag = coreTag "timestamp" then
    (Timestamp.read? cs).map fun t => ⟨.time t, none, 0⟩
  else some (textual cs)

/-- The meaning of a scalar under a tag. -/
def tagged? (v : Version) (tag : String) (cs : List Char) : Option Interpretation :=
  let rules := v.rules.filter fun rule => rule.tag == tag
  match rules.find? fun rule => !(rule.read cs).isMisfit with
  | some rule => byRules? [rule] cs
  | none => known? v tag cs

end BlockIr.Yaml
