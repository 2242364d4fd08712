import BlockIr.Description.Node
import BlockIr.Ty

/-!
# Type tables

Types are declared by name and named everywhere else. A declaration may name types that are
declared after it, and it replaces a builtin type of the same name everywhere. A type is
resolved by following the names it is built on; a resolved type is kept and not resolved
again.

* `TypeTable.resolve`: the type of a name. Every step leaves one declaration less that is not
  yet being resolved, so the number of declarations bounds the steps.
* `TypeTable.lookup`: the type a node names.
-/

namespace BlockIr

/-- What a declaration says about the shape of its type. -/
inductive Shape where
  | plain (kind : PlainKind)
  | int | float | pointer | array | maybe | errorUnion
  | aggregate (kind : AggregateKind)
  | declared
  deriving DecidableEq, Repr

namespace Shape

def all : List Shape :=
  PlainKind.all.map plain ++
  [int, float, pointer, array, maybe, errorUnion, aggregate .struct, aggregate .enum,
   aggregate .union, declared]

/-- The word a shape goes by. -/
def word : Shape → String
  | plain kind => kind.word
  | int => "int"
  | float => "float"
  | pointer => "pointer"
  | array => "array"
  | maybe => "maybe"
  | errorUnion => "error_union"
  | aggregate kind => kind.word
  | declared => "type_decl"

def ofWord? (w : String) : Option Shape := all.find? fun shape => shape.word == w

theorem ofWord?_word (shape : Shape) : ofWord? shape.word = some shape := by
  rcases shape with kind | _ | _ | _ | _ | _ | _ | kind | _ <;> (try cases kind) <;> decide

end Shape

/-- What a declaration gives: a type, or what to make of the type it is built on. -/
inductive Declaration where
  | complete (type : Ty)
  /-- Built on the type that `child` names. -/
  | over (child : Node) (build : Ty → Reading Ty)

/-- Read what a declaration says about a type of a shape, up to the type it is built on. -/
def Declaration.readShape (node : Node) (name : String) : Shape → Reading Declaration
  | .plain kind => return .complete (.plain kind name)
  | .int => do
    let bits ← node.id "bits"
    return .complete (.int name bits (← node.boolOr "signed" false))
  | .float => return .complete (.float name (← node.id "bits"))
  | .pointer =>
    return .over (← node.field "child") fun child => do
      return .pointer name child (← node.boolOr "isConst" false)
  | .array =>
    return .over (← node.field "child") fun child => do
      return .array name child (← node.id "length")
  | .maybe => return .over (← node.field "child") fun child => .ok (.maybe name child)
  | .errorUnion => return .over (← node.field "child") fun child => .ok (.errorUnion name child)
  | .aggregate kind =>
    return .complete (.aggregate kind name (← (← node.listOrEmpty "fields").mapM Node.text))
  | .declared => return .over (← node.field "canonical") fun child => .ok (.declared name child)

/-- Read the declaration of `key`. A type without a name of its own has the key for its name. -/
def Declaration.read (key : String) (node : Node) : Reading Declaration := do
  let shape ← (← node.field "kind").word Shape.ofWord? .unknownKind
  let name ← node.textOr "name" key
  readShape node name shape

/-- Types by name, the latest one first. -/
abbrev Known := List (String × Ty)

structure TypeTable where
  declarations : List (String × Node)
  /-- Builtin types and types resolved so far. -/
  known : Known

namespace TypeTable

/-- The table without declarations. -/
def builtin : TypeTable := ⟨[], Ty.builtins.map fun t => (t.name, t)⟩

/-- A table of declarations; they hide builtin types of their names. -/
def ofDeclarations (declarations : List (String × Node)) : TypeTable :=
  { declarations
    known := builtin.known.filter fun e => (declarations.lookup e.1).isNone }

/-- The table a mapping declares, if there is one. -/
def read : Option Node → Reading TypeTable
  | none => .ok builtin
  | some node => do return ofDeclarations (← node.entries)

/-- Resolve `name`, which stands at `site`, while the types `active` are being resolved and at
most `left` declarations are not. A type that is built on itself has no resolution. -/
def resolveWithin (declarations : List (String × Node)) :
    (left : Nat) → (active : List String) → (name : String) → (site : Node) → Known →
    Reading (Ty × Known)
  | left, active, name, site, known =>
    match known.lookup name, declarations.lookup name with
    | some type, _ => .ok (type, known)
    | none, none => site.fail (.unknownType name)
    | none, some declaration =>
      if name ∈ active then declaration.fail (.typeCycle name)
      else
        match left with
        | 0 => declaration.fail (.typeCycle name)
        | left + 1 => do
          match ← Declaration.read name declaration with
          | .complete type => return (type, (name, type) :: known)
          | .over child build =>
            let (childType, known) ←
              resolveWithin declarations left (name :: active) (← child.text) child known
            let type ← build childType
            return (type, (name, type) :: known)

/-- The type of a name that stands at `site`, and the table that remembers it. -/
def resolve (t : TypeTable) (name : String) (site : Node) : Reading (Ty × TypeTable) := do
  let (type, known) ←
    resolveWithin t.declarations t.declarations.length [] name site t.known
  return (type, { t with known })

/-- The type a node names. -/
def lookup (t : TypeTable) (node : Node) : Reading Ty := do
  let name ← node.text
  return (← t.resolve name node).1

end TypeTable

end BlockIr
