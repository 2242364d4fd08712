import BlockIr.Text.Integer

/-!
# Types

The dump reads three things of a type: its shape, which picks the rule a constant is written
by, its name, which is shown, and its child, at which nested constants are read. Everything
else a type carries is kept but not interpreted.
-/

namespace BlockIr

/-- Shapes that carry nothing but a name. -/
inductive PlainKind where
  | invalid | var | void | bool | unreachable
  | intLiteral | floatLiteral | nullLiteral | undefinedLiteral
  | metaType | pureError | fn | block | namespacePath | boundFn
  deriving DecidableEq, Repr

/-- Shapes with named fields. -/
inductive AggregateKind where
  | struct | enum | union
  deriving DecidableEq, Repr

/-- An entry of the type table. -/
inductive Ty where
  | plain (kind : PlainKind) (name : String)
  | int (name : String) (bits : Int) (signed : Bool)
  | float (name : String) (bits : Int)
  | pointer (name : String) (child : Ty) (isConst : Bool)
  | array (name : String) (child : Ty) (length : Int)
  | maybe (name : String) (child : Ty)
  | errorUnion (name : String) (child : Ty)
  | aggregate (kind : AggregateKind) (name : String) (fields : List String)
  /-- A declared name for another type. -/
  | declared (name : String) (canonical : Ty)
  /-- A shape this library has no rule for. -/
  | unrecognised (kind name : String)
  deriving DecidableEq, Repr

/-- The word a shape goes by in descriptions and messages. -/
def PlainKind.word : PlainKind → String
  | .invalid => "invalid"
  | .var => "var"
  | .void => "void"
  | .bool => "bool"
  | .unreachable => "unreachable"
  | .intLiteral => "int_literal"
  | .floatLiteral => "float_literal"
  | .nullLiteral => "null_literal"
  | .undefinedLiteral => "undefined_literal"
  | .metaType => "meta_type"
  | .pureError => "pure_error"
  | .fn => "fn"
  | .block => "block"
  | .namespacePath => "namespace"
  | .boundFn => "bound_fn"

def PlainKind.all : List PlainKind :=
  [.invalid, .var, .void, .bool, .unreachable, .intLiteral, .floatLiteral, .nullLiteral,
   .undefinedLiteral, .metaType, .pureError, .fn, .block, .namespacePath, .boundFn]

def PlainKind.ofWord? (word : String) : Option PlainKind :=
  PlainKind.all.find? fun kind => kind.word == word

def AggregateKind.word : AggregateKind → String
  | .struct => "struct"
  | .enum => "enum"
  | .union => "union"

namespace Ty

/-- The name shown for a type. -/
def name : Ty → String
  | plain _ name | int name _ _ | float name _ | pointer name _ _ | array name _ _
  | maybe name _ | errorUnion name _ | aggregate _ name _ | declared name _
  | unrecognised _ name => name

/-- The word for a type's shape. -/
def kindWord : Ty → String
  | plain kind _ => kind.word
  | int .. => "int"
  | float .. => "float"
  | pointer .. => "pointer"
  | array .. => "array"
  | maybe .. => "maybe"
  | errorUnion .. => "error_union"
  | aggregate kind _ _ => kind.word
  | declared .. => "type_decl"
  | unrecognised kind _ => kind

/-- The type behind declared names. -/
def canonical : Ty → Ty
  | declared _ t => t.canonical
  | t => t

/-- Whether a type has named fields. -/
def isAggregate : Ty → Bool
  | aggregate .. => true
  | _ => false

/-! ## Types with the names the type table gives them -/

def ofInt (bits : Int) (signed : Bool) : Ty :=
  int ((if signed then "i" else "u") ++ Text.integer bits) bits signed

def ofFloat (bits : Int) : Ty := float ("f" ++ Text.integer bits) bits

def pointerTo (child : Ty) (isConst : Bool) : Ty :=
  pointer ("&" ++ (if isConst then "const " else "") ++ child.name) child isConst

def arrayOf (child : Ty) (length : Int) : Ty :=
  array ("[" ++ Text.integer length ++ "]" ++ child.name) child length

def maybeOf (child : Ty) : Ty := maybe ("?" ++ child.name) child

def errorUnionOf (child : Ty) : Ty := errorUnion ("%" ++ child.name) child

/-- The name of the one plain type of each shape that has a fixed name. -/
def plainName : PlainKind → String
  | .intLiteral => "(integer literal)"
  | .floatLiteral => "(float literal)"
  | .nullLiteral => "(null)"
  | .undefinedLiteral => "(undefined)"
  | .metaType => "type"
  | .pureError => "(pure error)"
  | .namespacePath => "(namespace)"
  | .block => "(block)"
  | .boundFn => "(bound fn)"
  | kind => kind.word

def ofPlain (kind : PlainKind) : Ty := plain kind (plainName kind)

/-- Types every description may name without declaring them. -/
def builtins : List Ty :=
  [ofPlain .void, ofPlain .bool, ofPlain .metaType, ofPlain .unreachable,
   ofPlain .intLiteral, ofPlain .floatLiteral, ofPlain .nullLiteral,
   ofPlain .undefinedLiteral, ofPlain .pureError, ofPlain .namespacePath, ofPlain .block,
   ofPlain .boundFn,
   ofInt 8 false, ofInt 8 true, ofInt 16 false, ofInt 16 true,
   ofInt 32 false, ofInt 32 true, ofInt 64 false, ofInt 64 true,
   int "usize" 64 false, int "isize" 64 true,
   ofFloat 32, ofFloat 64]

end Ty

end BlockIr
