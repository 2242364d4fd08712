import BlockIr.Dump.Constant
import BlockIr.Dump.Layout
import BlockIr.Text.Width

/-!
# Instruction lines

A line holds the margin, three columns of fixed least width and the body. The use count of an
instruction that is kept for its side effects is shown as a dash.
-/

namespace BlockIr

/-- Text of one piece. -/
def Piece.textIn (e : Executable) : Piece → Except DumpStop String
  | .text s => .ok s
  | .operand id => e.operand id
  | .reference id => .ok (DumpError.idText id)
  | .label id => e.blockReference id

/-- Text of a row of pieces. -/
def Piece.textOfAll (e : Executable) (pieces : List Piece) : Except DumpStop String := do
  let texts ← pieces.mapM (Piece.textIn e)
  return String.join texts

/-- Text of a layout, its middle part written first. -/
def Layout.textIn (e : Executable) (l : Layout) : Except DumpStop String := do
  let middle ← Piece.textOfAll e l.middle
  let before ← Piece.textOfAll e l.before
  let after ← Piece.textOfAll e l.after
  return before ++ middle ++ after

/-- Least widths of the id, type and use count columns. -/
def idWidth : Nat := 3

def typeWidth : Nat := 12

def refCountWidth : Nat := 2

/-- Use count as it is shown. -/
def Instruction.refCountText (i : Instruction) : String :=
  if i.hasSideEffects then "-" else Text.integer i.refCount

/-- The columns before the body, `margin` blanks from the left. -/
def Instruction.columns (margin : Nat) (i : Instruction) : String :=
  Text.blanks margin ++ "#" ++ Text.padRight idWidth (Text.integer i.id) ++ "| " ++
    Text.padRight typeWidth i.typeName ++ "| " ++
    Text.padRight refCountWidth i.refCountText ++ "| "

/-- The body of a line. -/
def Instruction.body (e : Executable) (i : Instruction) : Except DumpStop String :=
  match i.operation with
  | .const => i.constantText e.operand
  | .phi [] => .error (.problem (.emptyPhi i.id))
  | .unrecognised kind => .error (.problem (.unknownOperation kind))
  | operation => operation.layout.textIn e

/-- A whole line without its line break. -/
def Instruction.line (e : Executable) (margin : Nat) (i : Instruction) :
    Except DumpStop String := do
  let body ← i.body e
  return i.columns margin ++ body

end BlockIr
