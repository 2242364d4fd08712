import BlockIr.Dump.Layout

/-!
# The ids in a layout

The row an operation is shown as holds every operand and every target of the operation once,
in their order, and no other id. Of a store, the destination is shown by its id; every other
operand is shown as an operand.

* `Operation.shown`: what is shown of the instructions an operation reads.
* `Operation.instructions_layout`, `Operation.labelSlots_layout`.
-/

namespace BlockIr

theorem filterMap_intercalate {α β : Type} (f : α → Option β) {sep : List α}
    (hsep : sep.filterMap f = []) (groups : List (List α)) :
    (List.intercalate sep groups).filterMap f = groups.flatMap (List.filterMap f) := by
  induction groups with
  | nil => rfl
  | cons g gs ih =>
    cases gs with
    | nil => rw [List.intercalate_singleton, List.flatMap_singleton]
    | cons g' gs =>
      rw [List.intercalate_cons_cons, List.filterMap_append, List.filterMap_append, hsep, ih,
        List.append_nil, ← List.flatMap_cons]

namespace Piece

/-- The pieces of a row that show an instruction. -/
def instructions (pieces : List Piece) : List Piece :=
  pieces.filterMap fun
    | operand id => some (operand id)
    | reference id => some (reference id)
    | _ => none

theorem operand_mem_instructions {id : InstrId} {pieces : List Piece} :
    .operand id ∈ instructions pieces ↔ .operand id ∈ pieces := by
  rw [instructions, List.mem_filterMap]
  constructor
  · rintro ⟨piece, hpiece, h⟩
    cases piece <;> cases h
    exact hpiece
  · intro h
    exact ⟨_, h, rfl⟩

theorem reference_mem_instructions {id : InstrId} {pieces : List Piece} :
    .reference id ∈ instructions pieces ↔ .reference id ∈ pieces := by
  rw [instructions, List.mem_filterMap]
  constructor
  · rintro ⟨piece, hpiece, h⟩
    cases piece <;> cases h
    exact hpiece
  · intro h
    exact ⟨_, h, rfl⟩

theorem mem_labelSlots {id : BlockId} {pieces : List Piece} :
    id ∈ labelSlots pieces ↔ .label id ∈ pieces := by
  rw [labelSlots, List.mem_filterMap]
  constructor
  · rintro ⟨piece, hpiece, h⟩
    cases piece <;> cases h
    exact hpiece
  · intro h
    exact ⟨_, h, rfl⟩

/-! ## Rows -/

section Rows

variable (s : String) (id : Int) (ps qs : List Piece)

@[simp] theorem instructions_nil : instructions [] = [] := rfl

@[simp] theorem instructions_text : instructions (.text s :: ps) = instructions ps := rfl

@[simp] theorem instructions_operand :
    instructions (.operand id :: ps) = .operand id :: instructions ps := rfl

@[simp] theorem instructions_reference :
    instructions (.reference id :: ps) = .reference id :: instructions ps := rfl

@[simp] theorem instructions_label : instructions (.label id :: ps) = instructions ps := rfl

@[simp] theorem instructions_append :
    instructions (ps ++ qs) = instructions ps ++ instructions qs :=
  List.filterMap_append

@[simp] theorem labelSlots_nil : labelSlots [] = [] := rfl

@[simp] theorem labelSlots_text : labelSlots (.text s :: ps) = labelSlots ps := rfl

@[simp] theorem labelSlots_operand : labelSlots (.operand id :: ps) = labelSlots ps := rfl

@[simp] theorem labelSlots_reference : labelSlots (.reference id :: ps) = labelSlots ps := rfl

@[simp] theorem labelSlots_label : labelSlots (.label id :: ps) = id :: labelSlots ps := rfl

@[simp] theorem labelSlots_append : labelSlots (ps ++ qs) = labelSlots ps ++ labelSlots qs :=
  List.filterMap_append

end Rows

/-! ## Lists of groups -/

@[simp] theorem instructions_flatMap {α : Type} (f : α → List Piece) (xs : List α) :
    instructions (xs.flatMap f) = xs.flatMap fun x => instructions (f x) :=
  List.filterMap_flatMap

@[simp] theorem labelSlots_flatMap {α : Type} (f : α → List Piece) (xs : List α) :
    labelSlots (xs.flatMap f) = xs.flatMap fun x => labelSlots (f x) :=
  List.filterMap_flatMap

@[simp] theorem instructions_intercalate (s : String) (groups : List (List Piece)) :
    instructions (List.intercalate [text s] groups) = groups.flatMap instructions :=
  filterMap_intercalate _ rfl groups

@[simp] theorem labelSlots_intercalate (s : String) (groups : List (List Piece)) :
    labelSlots (List.intercalate [text s] groups) = groups.flatMap labelSlots :=
  filterMap_intercalate _ rfl groups

@[simp] theorem instructions_commas (groups : List (List Piece)) :
    instructions (commas groups) = groups.flatMap instructions :=
  instructions_intercalate ", " groups

@[simp] theorem labelSlots_commas (groups : List (List Piece)) :
    labelSlots (commas groups) = groups.flatMap labelSlots :=
  labelSlots_intercalate ", " groups

@[simp] theorem instructions_operandList (ids : List InstrId) :
    instructions (operandList ids) = ids.map .operand := by
  simp [operandList, List.flatMap_map, ← List.map_eq_flatMap]

@[simp] theorem labelSlots_operandList (ids : List InstrId) :
    labelSlots (operandList ids) = [] := by
  simp [operandList, List.flatMap_map]

end Piece

/-! ## Parts of operations -/

open Piece

@[simp] theorem Callee.instructions_piece (c : Callee) (ps : List Piece) :
    instructions (c.piece :: ps) = c.operands.map .operand ++ instructions ps := by
  cases c <;> rfl

@[simp] theorem Callee.labelSlots_piece (c : Callee) (ps : List Piece) :
    labelSlots (c.piece :: ps) = labelSlots ps := by
  cases c <;> rfl

@[simp] theorem AsmOutput.instructions_pieces (o : AsmOutput) :
    instructions o.pieces = o.target.operands.map .operand := by
  obtain ⟨_, _, target⟩ := o
  cases target <;> rfl

@[simp] theorem AsmOutput.labelSlots_pieces (o : AsmOutput) : labelSlots o.pieces = [] := by
  obtain ⟨_, _, target⟩ := o
  cases target <;> rfl

/-! ## Operations -/

namespace Operation

/-- What is shown of the instructions an operation reads. -/
def shown : Operation → List Piece
  | storePtr ptr a => [.reference ptr, .operand a]
  | op => op.operands.map .operand

theorem instructionSlots_shown (op : Operation) : instructionSlots op.shown = op.operands := by
  have hall (ids : List InstrId) : instructionSlots (ids.map .operand) = ids := by
    rw [instructionSlots, List.filterMap_map]
    exact List.filterMap_some
  cases op with
  | storePtr ptr a => rfl
  | _ => exact hall _

theorem mem_operands_of_shown {op : Operation} {id : InstrId} (h : .operand id ∈ op.shown) :
    id ∈ op.operands := by
  rw [← instructionSlots_shown]
  exact List.mem_filterMap.mpr ⟨_, h, rfl⟩

theorem reference_mem_shown {op : Operation} {id : InstrId} :
    .reference id ∈ op.shown ↔ ∃ a, op = .storePtr id a := by
  have hall (ids : List InstrId) : .reference id ∉ ids.map Piece.operand := by simp
  constructor
  · intro h
    cases op with
    | storePtr ptr a =>
      simp only [shown, List.mem_cons, Piece.reference.injEq, List.not_mem_nil] at h
      rcases h with rfl | h | h
      · exact ⟨a, rfl⟩
      · cases h
      · cases h
    | _ => exact absurd h (hall _)
  · rintro ⟨a, rfl⟩
    exact List.mem_cons_self

/-- The row of an operation shows its operands, in their order. -/
theorem instructions_layout (op : Operation) : instructions op.layout.pieces = op.shown := by
  cases op with
  | declVar slot varType init => cases varType <;> rfl
  | call callee args => simp [layout, Layout.pieces, Layout.inOrder, shown, operands]
  | phi incoming =>
    simp [layout, Layout.pieces, Layout.inOrder, shown, operands, PhiEdge.pieces,
      List.flatMap_map, ← List.map_eq_flatMap]
  | switchBr target cases elseBlock isInline =>
    simp [layout, Layout.pieces, shown, operands, SwitchCase.pieces, ← List.map_eq_flatMap]
  | containerInitList type items => simp [layout, Layout.pieces, shown, operands]
  | containerInitFields type fields =>
    simp [layout, Layout.pieces, shown, operands, FieldInit.pieces, List.flatMap_map,
      ← List.map_eq_flatMap]
  | structInit type fields =>
    simp [layout, Layout.pieces, Layout.inOrder, shown, operands, FieldInit.pieces,
      List.flatMap_map, ← List.map_eq_flatMap]
  | asm template outputs inputs clobbers isVolatile =>
    simp [layout, Layout.pieces, Layout.inOrder, shown, operands, AsmInput.pieces, asmHead,
      List.flatMap_map, List.map_flatMap, ← List.map_eq_flatMap]
  | _ => rfl

theorem operand_mem_layout {op : Operation} {id : InstrId} :
    .operand id ∈ op.layout.pieces ↔ .operand id ∈ op.shown := by
  rw [← operand_mem_instructions, instructions_layout]

theorem reference_mem_layout {op : Operation} {id : InstrId} :
    .reference id ∈ op.layout.pieces ↔ .reference id ∈ op.shown := by
  rw [← reference_mem_instructions, instructions_layout]

/-- The row of an operation shows its targets, in their order. -/
theorem labelSlots_layout (op : Operation) : labelSlots op.layout.pieces = op.targets := by
  cases op with
  | declVar slot varType init => cases varType <;> rfl
  | call callee args => simp [layout, Layout.pieces, Layout.inOrder, targets]
  | phi incoming =>
    simp [layout, Layout.pieces, Layout.inOrder, targets, PhiEdge.pieces, List.flatMap_map,
      ← List.map_eq_flatMap]
  | switchBr target cases elseBlock isInline =>
    simp [layout, Layout.pieces, targets, SwitchCase.pieces, ← List.map_eq_flatMap]
  | containerInitList type items => simp [layout, Layout.pieces, targets]
  | containerInitFields type fields =>
    simp [layout, Layout.pieces, targets, FieldInit.pieces, List.flatMap_map]
  | structInit type fields =>
    simp [layout, Layout.pieces, Layout.inOrder, targets, FieldInit.pieces, List.flatMap_map]
  | asm template outputs inputs clobbers isVolatile =>
    simp [layout, Layout.pieces, Layout.inOrder, targets, AsmInput.pieces, asmHead,
      List.flatMap_map]
  | _ => rfl

theorem label_mem_layout {op : Operation} {id : BlockId} :
    .label id ∈ op.layout.pieces ↔ id ∈ op.targets := by
  rw [← mem_labelSlots, labelSlots_layout]

end Operation

end BlockIr
