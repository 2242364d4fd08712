/-!
# Operators and builtin calls

Each operator has a word, by which descriptions name it, and a token, by which a dump shows
it. Wrapping arithmetic carries a trailing percent sign in its token.
-/

namespace BlockIr

inductive BinaryOp where
  | boolOr | boolAnd
  | cmpEq | cmpNotEq | cmpLessThan | cmpGreaterThan | cmpLessOrEq | cmpGreaterOrEq
  | binOr | binXor | binAnd | bitShiftLeft | bitShiftLeftWrap | bitShiftRight
  | add | addWrap | sub | subWrap | mult | multWrap | div | mod
  | arrayCat | arrayMult
  deriving DecidableEq, Repr

inductive UnaryOp where
  | boolNot | binNot | negation | negationWrap
  | addressOf | constAddressOf | dereference
  | maybe | error | unwrapError | unwrapMaybe | maybeReturn | errorReturn
  deriving DecidableEq, Repr

/-- Compile-time builtins of one argument. -/
inductive Builtin where
  | typeOf | toPtrType | ptrTypeChild | compileVar | sizeOf | clz | ctz | staticEval
  | importFile
  deriving DecidableEq, Repr

/-- Builtins that set an attribute of their first argument to their second. -/
inductive Setting where
  | fnTest | fnVisible | debugSafety
  deriving DecidableEq, Repr

namespace BinaryOp

def all : List BinaryOp :=
  [.boolOr, .boolAnd, .cmpEq, .cmpNotEq, .cmpLessThan, .cmpGreaterThan, .cmpLessOrEq,
   .cmpGreaterOrEq, .binOr, .binXor, .binAnd, .bitShiftLeft, .bitShiftLeftWrap,
   .bitShiftRight, .add, .addWrap, .sub, .subWrap, .mult, .multWrap, .div, .mod, .arrayCat,
   .arrayMult]

def word : BinaryOp → String
  | .boolOr => "bool_or"
  | .boolAnd => "bool_and"
  | .cmpEq => "cmp_eq"
  | .cmpNotEq => "cmp_not_eq"
  | .cmpLessThan => "cmp_less_than"
  | .cmpGreaterThan => "cmp_greater_than"
  | .cmpLessOrEq => "cmp_less_or_eq"
  | .cmpGreaterOrEq => "cmp_greater_or_eq"
  | .binOr => "bin_or"
  | .binXor => "bin_xor"
  | .binAnd => "bin_and"
  | .bitShiftLeft => "bit_shift_left"
  | .bitShiftLeftWrap => "bit_shift_left_wrap"
  | .bitShiftRight => "bit_shift_right"
  | .add => "add"
  | .addWrap => "add_wrap"
  | .sub => "sub"
  | .subWrap => "sub_wrap"
  | .mult => "mult"
  | .multWrap => "mult_wrap"
  | .div => "div"
  | .mod => "mod"
  | .arrayCat => "array_cat"
  | .arrayMult => "array_mult"

def token : BinaryOp → String
  | .boolOr => "BoolOr"
  | .boolAnd => "BoolAnd"
  | .cmpEq => "=="
  | .cmpNotEq => "!="
  | .cmpLessThan => "<"
  | .cmpGreaterThan => ">"
  | .cmpLessOrEq => "<="
  | .cmpGreaterOrEq => ">="
  | .binOr => "|"
  | .binXor => "^"
  | .binAnd => "&"
  | .bitShiftLeft => "<<"
  | .bitShiftLeftWrap => "<<%"
  | .bitShiftRight => ">>"
  | .add => "+"
  | .addWrap => "+%"
  | .sub => "-"
  | .subWrap => "-%"
  | .mult => "*"
  | .multWrap => "*%"
  | .div => "/"
  | .mod => "%"
  | .arrayCat => "++"
  | .arrayMult => "**"

def ofWord? (w : String) : Option BinaryOp := all.find? fun op => op.word == w

theorem ofWord?_word (op : BinaryOp) : ofWord? op.word = some op := by
  cases op <;> decide

end BinaryOp

namespace UnaryOp

def all : List UnaryOp :=
  [.boolNot, .binNot, .negation, .negationWrap, .addressOf, .constAddressOf, .dereference,
   .maybe, .error, .unwrapError, .unwrapMaybe, .maybeReturn, .errorReturn]

def word : UnaryOp → String
  | .boolNot => "bool_not"
  | .binNot => "bin_not"
  | .negation => "negation"
  | .negationWrap => "negation_wrap"
  | .addressOf => "address_of"
  | .constAddressOf => "const_address_of"
  | .dereference => "dereference"
  | .maybe => "maybe"
  | .error => "error"
  | .unwrapError => "unwrap_error"
  | .unwrapMaybe => "unwrap_maybe"
  | .maybeReturn => "maybe_return"
  | .errorReturn => "error_return"

def token : UnaryOp → String
  | .boolNot => "!"
  | .binNot => "~"
  | .negation => "-"
  | .negationWrap => "-%"
  | .addressOf => "&"
  | .constAddressOf => "&const"
  | .dereference => "*"
  | .maybe => "?"
  | .error => "%"
  | .unwrapError => "%%"
  | .unwrapMaybe => "??"
  | .maybeReturn => "?return"
  | .errorReturn => "%return"

def ofWord? (w : String) : Option UnaryOp := all.find? fun op => op.word == w

theorem ofWord?_word (op : UnaryOp) : ofWord? op.word = some op := by
  cases op <;> decide

end UnaryOp

namespace Builtin

def all : List Builtin :=
  [.typeOf, .toPtrType, .ptrTypeChild, .compileVar, .sizeOf, .clz, .ctz, .staticEval,
   .importFile]

/-- The kind word of an instruction that calls this builtin. -/
def word : Builtin → String
  | .typeOf => "type_of"
  | .toPtrType => "to_ptr_type"
  | .ptrTypeChild => "ptr_type_child"
  | .compileVar => "compile_var"
  | .sizeOf => "size_of"
  | .clz => "clz"
  | .ctz => "ctz"
  | .staticEval => "static_eval"
  | .importFile => "import"

def ofWord? (w : String) : Option Builtin := all.find? fun fn => fn.word == w

/-- The name a dump shows after the at sign. -/
def token : Builtin → String
  | .typeOf => "typeOf"
  | .toPtrType => "toPtrType"
  | .ptrTypeChild => "ptrTypeChild"
  | .compileVar => "compileVar"
  | .sizeOf => "sizeOf"
  | .clz => "clz"
  | .ctz => "ctz"
  | .staticEval => "staticEval"
  | .importFile => "import"

/-- The field of a description that holds the argument. -/
def argumentField : Builtin → String
  | .compileVar | .importFile => "name"
  | .sizeOf => "typeValue"
  | _ => "operand"

end Builtin

namespace Setting

def all : List Setting := [.fnTest, .fnVisible, .debugSafety]

/-- The kind word of an instruction that changes this setting. -/
def word : Setting → String
  | .fnTest => "set_fn_test"
  | .fnVisible => "set_fn_visible"
  | .debugSafety => "set_debug_safety"

def ofWord? (w : String) : Option Setting := all.find? fun s => s.word == w

/-- The name a dump shows after the at sign. -/
def token : Setting → String
  | .fnTest => "setFnTest"
  | .fnVisible => "setFnVisible"
  | .debugSafety => "setDebugSafety"

/-- The field of a description that holds what is changed. -/
def subjectField : Setting → String
  | .fnTest | .fnVisible => "fnValue"
  | .debugSafety => "scopeValue"

/-- The field of a description that holds the new state. -/
def stateField : Setting → String
  | .fnTest => "isTest"
  | .fnVisible => "isVisible"
  | .debugSafety => "debugSafetyOn"

end Setting

end BlockIr
