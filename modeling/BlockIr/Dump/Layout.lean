import BlockIr.Instruction.Basic

/-!
# Layout of instruction bodies

The body of an instruction is a row of pieces: fixed text, operands and block labels. The row
depends on the operation alone. A middle part of the row may be written before the parts
around it: of two operands that cannot be written, the one written first decides which
problem is reported.

* `Layout.operandSlots`, `Layout.labelSlots`: the ids in a row, from left to right.
-/

namespace BlockIr

/-- One piece of a body. -/
inductive Piece where
  | text (s : String)
  /-- An operand, shown as its value or as an id token. -/
  | operand (id : InstrId)
  /-- An instruction that is always shown by id. -/
  | reference (id : InstrId)
  | label (id : BlockId)
  deriving DecidableEq, Repr

/-- A row of pieces whose middle part is written first. -/
structure Layout where
  before : List Piece
  middle : List Piece
  after : List Piece

namespace Layout

/-- The row from left to right. -/
def pieces (l : Layout) : List Piece := l.before ++ l.middle ++ l.after

/-- A row written from left to right. -/
def inOrder (pieces : List Piece) : Layout := ⟨[], [], pieces⟩

end Layout

namespace Piece

/-- Groups of pieces with a comma and a blank between them. -/
def commas (groups : List (List Piece)) : List Piece :=
  List.intercalate [text ", "] groups

def operandList (ids : List InstrId) : List Piece := commas (ids.map fun id => [operand id])

/-- Instructions shown in a row of pieces, one entry per slot. -/
def instructionSlots (pieces : List Piece) : List InstrId :=
  pieces.filterMap fun
    | operand id | reference id => some id
    | _ => none

/-- Blocks shown in a row of pieces, one entry per slot. -/
def labelSlots (pieces : List Piece) : List BlockId :=
  pieces.filterMap fun
    | label id => some id
    | _ => none

end Piece

/-- Keyword of operations executed at compile time. -/
def inlineKeyword (isInline : Bool) : String := if isInline then "inline " else ""

/-- Remark on accesses that are not checked. -/
def safetyRemark (checked : Bool) : String := if checked then "" else " // no safety"

def quoted (s : String) : String := "\"" ++ s ++ "\""

def FieldInit.pieces (f : FieldInit) : List Piece :=
  [.text ("." ++ f.field ++ " = "), .operand f.value]

def SwitchCase.pieces (c : SwitchCase) : List Piece :=
  [.operand c.value, .text " => ", .label c.block, .text ", "]

def PhiEdge.pieces (e : PhiEdge) : List Piece :=
  [.label e.block, .text ":", .operand e.value]

def AsmTarget.pieces : AsmTarget → List Piece
  | .slot name => [.text name]
  | .result type => [.text "-> ", .operand type]

/-- Name and constraint of an assembly argument. -/
def asmHead (symbolicName constraint : String) : Piece :=
  .text ("[" ++ symbolicName ++ "] " ++ quoted constraint ++ " (")

def AsmOutput.pieces (o : AsmOutput) : List Piece :=
  asmHead o.symbolicName o.constraint :: o.target.pieces ++ [.text ")"]

def AsmInput.pieces (i : AsmInput) : List Piece :=
  [asmHead i.symbolicName i.constraint, .operand i.operand, .text ")"]

def Callee.piece : Callee → Piece
  | .fn symbol => .text symbol
  | .operand id => .operand id

/-- The row an operation is shown as. -/
def Operation.layout : Operation → Layout
  | .ret a => .inOrder [.text "return ", .operand a]
  | .const => .inOrder []
  | .binary op a b => .inOrder [.operand a, .text (" " ++ op.token ++ " "), .operand b]
  | .unary op a => .inOrder [.text (op.token ++ " "), .operand a]
  | .declVar slot varType init =>
    .inOrder <|
      .text (inlineKeyword slot.isInline ++ (if slot.isConst then "const" else "var") ++ " " ++
        slot.name) ::
      (match varType with
        | some t => [.text ": ", .operand t]
        | none => []) ++
      [.text " = ", .operand init]
  | .cast a dest => .inOrder [.text "cast ", .operand a, .text (" to " ++ dest.name)]
  | .call callee args =>
    .inOrder (callee.piece :: .text "(" :: Piece.operandList args ++ [.text ")"])
  | .condBr a thenBlock elseBlock isInline =>
    .inOrder [.text (inlineKeyword isInline ++ "if ("), .operand a, .text ") ",
      .label thenBlock, .text " else ", .label elseBlock]
  | .br dest isInline => .inOrder [.text (inlineKeyword isInline ++ "goto "), .label dest]
  | .phi incoming => .inOrder (List.intercalate [.text " "] (incoming.map PhiEdge.pieces))
  | .switchBr target cases elseBlock isInline =>
    { before := [.text (inlineKeyword isInline ++ "switch ("), .operand target, .text ") "]
      middle := cases.flatMap SwitchCase.pieces
      after := [.text "else => ", .label elseBlock] }
  | .switchVar a b => .inOrder [.text "switchvar ", .operand a, .text ", ", .operand b]
  | .switchTarget a => .inOrder [.text "switchtarget ", .operand a]
  | .unreachable => .inOrder [.text "unreachable"]
  | .containerInitList type items =>
    { before := [.operand type, .text "\x7b"]
      middle := Piece.operandList items
      after := [.text "\x7d"] }
  | .containerInitFields type fields =>
    { before := [.operand type, .text "\x7b"]
      middle := Piece.commas (fields.map FieldInit.pieces)
      after := [.text "\x7d // container init"] }
  | .structInit type fields =>
    .inOrder (.text (type.name ++ " \x7b") :: Piece.commas (fields.map FieldInit.pieces) ++
      [.text "\x7d // struct init"])
  | .elemPtr a b checked =>
    .inOrder [.text "&", .operand a, .text "[", .operand b, .text ("]" ++ safetyRemark checked)]
  | .varPtr slot => .inOrder [.text ("&" ++ slot.name)]
  | .loadPtr a => .inOrder [.text "*", .operand a]
  | .storePtr ptr a => .inOrder [.text "*", .reference ptr, .text " = ", .operand a]
  | .fieldPtr a field => .inOrder [.text "fieldptr ", .operand a, .text ("." ++ field)]
  | .structFieldPtr a field =>
    .inOrder [.text "@StructFieldPtr(&", .operand a, .text ("." ++ field ++ ")")]
  | .enumFieldPtr a field =>
    .inOrder [.text "@EnumFieldPtr(&", .operand a, .text ("." ++ field ++ ")")]
  | .testNull a => .inOrder [.text "*", .operand a, .text " == null"]
  | .unwrapMaybe a checked => .inOrder [.text "&??*", .operand a, .text (safetyRemark checked)]
  | .builtin fn a => .inOrder [.text ("@" ++ fn.token ++ "("), .operand a, .text ")"]
  | .arrayType a b => .inOrder [.text "[", .operand a, .text "]", .operand b]
  | .sliceType a isConst =>
    .inOrder [.text ("[]" ++ if isConst then "const " else ""), .operand a]
  | .setting s a b =>
    .inOrder [.text ("@" ++ s.token ++ "("), .operand a, .text ", ", .operand b, .text ")"]
  | .enumTag a => .inOrder [.text "enumtag ", .operand a]
  | .arrayLen a => .inOrder [.operand a, .text ".len"]
  | .ref a => .inOrder [.text "ref ", .operand a]
  | .asm template outputs inputs clobbers isVolatile =>
    .inOrder <|
      .text ("asm" ++ (if isVolatile then " volatile" else "") ++ " (" ++ quoted template ++
        ") : ") ::
      Piece.commas (outputs.map AsmOutput.pieces) ++ [.text " : "] ++
      Piece.commas (inputs.map AsmInput.pieces) ++
      [.text (" : " ++ ", ".intercalate (clobbers.map quoted) ++ ")")]
  | .unrecognised _ => .inOrder []

end BlockIr
