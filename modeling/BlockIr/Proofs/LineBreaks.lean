import BlockIr.Proofs.References

/-!
# The lines of a dump

A dump ends the label of a block and every line with a line break, and puts none inside of them.
But it shows names as they are, and a name may have a line break. So a dump, split at its line
breaks, gives back what was written if and only if no name that is shown has one.

* `Text.lines`, `Text.Broken`: the lines of a text, and texts of more than one line.
* `Operation.names`, `Ty.dataNames`: the names in an operation and in a constant.
* `Executable.Inlines`: the instructions whose values stand in a line.
* `Executable.ShowsBreak`, `Executable.lines_of_written_eq`: when a dump has other lines than were
  written.
-/

namespace BlockIr

/-! ## Lines of a text -/

namespace Text

/-- The lines of a text, and what follows the last line break. -/
def lines (s : String) : List String := (s.toList.splitOn '\n').map String.ofList

/-- A text with a line break. -/
def Broken (s : String) : Prop := '\n' ∈ s.toList

instance (s : String) : Decidable (Broken s) := inferInstanceAs (Decidable (_ ∈ _))

@[simp] theorem broken_append {s t : String} : Broken (s ++ t) ↔ Broken s ∨ Broken t := by
  simp [Broken]

@[simp] theorem broken_join {ss : List String} :
    Broken (String.join ss) ↔ ∃ s ∈ ss, Broken s := by
  induction ss with
  | nil => simp [Broken]
  | cons s ss ih => simp [ih]

theorem broken_intercalate {sep : String} (hsep : ¬ Broken sep) {ss : List String} :
    Broken (sep.intercalate ss) ↔ ∃ s ∈ ss, Broken s := by
  induction ss with
  | nil => simp [Broken]
  | cons s ss ih =>
    cases ss with
    | nil => simp
    | cons t ss =>
      rw [String.intercalate_cons_cons, broken_append, broken_append, ih]
      simp [hsep]

@[simp] theorem not_broken_integer (n : Int) : ¬ Broken (integer n) :=
  not_mem_integer (by decide) (by decide)

@[simp] theorem not_broken_idText (id : InstrId) : ¬ Broken (DumpError.idText id) :=
  not_mem_idText (by decide) (by decide) (by decide)

@[simp] theorem not_broken_blanks (n : Nat) : ¬ Broken (blanks n) := by
  simp [Broken, blanks]

@[simp] theorem broken_padRight {width : Nat} {s : String} :
    Broken (padRight width s) ↔ Broken s := by
  simp [padRight]

/-- One of some names has a line break. -/
def AnyBroken (names : List String) : Prop := ∃ name ∈ names, Broken name

section AnyBroken

variable {name : String} {names names' : List String}

@[simp] theorem not_anyBroken_nil : ¬ AnyBroken [] := by
  simp [AnyBroken]

@[simp] theorem anyBroken_cons : AnyBroken (name :: names) ↔ Broken name ∨ AnyBroken names := by
  simp [AnyBroken]

@[simp] theorem anyBroken_append :
    AnyBroken (names ++ names') ↔ AnyBroken names ∨ AnyBroken names' := by
  simp [AnyBroken, or_and_right, exists_or]

@[simp] theorem anyBroken_flatMap {α : Type} {f : α → List String} {xs : List α} :
    AnyBroken (xs.flatMap f) ↔ ∃ x ∈ xs, AnyBroken (f x) := by
  induction xs with
  | nil => simp
  | cons x xs ih => simp [ih]

@[simp] theorem anyBroken_map {α : Type} {f : α → String} {xs : List α} :
    AnyBroken (xs.map f) ↔ ∃ x ∈ xs, Broken (f x) := by
  simp [AnyBroken]

end AnyBroken

theorem length_lines (s : String) : (lines s).length = s.toList.count '\n' + 1 := by
  rw [lines, List.length_map]
  induction s.toList with
  | nil => rfl
  | cons c cs ih =>
    rw [List.splitOn_cons_eq_if_modifyHead, List.count_cons]
    split <;> simp [ih]

theorem lines_of_not_broken {s : String} (h : ¬ Broken s) : lines s = [s] := by
  rw [lines, List.splitOn_eq_singleton h]
  simp

/-- Each of some rows with a line break behind it is split on its own. -/
theorem lines_ended (rows : List String) :
    lines (String.join (rows.map (· ++ "\n"))) = rows.flatMap lines ++ [""] := by
  induction rows with
  | nil => rfl
  | cons row rows ih =>
    have hsplit : (String.join ((row :: rows).map (· ++ "\n"))).toList =
        row.toList ++ '\n' :: (String.join (rows.map (· ++ "\n"))).toList := by
      simp
    rw [lines, hsplit, List.splitOn_append_cons_self, List.map_append, List.flatMap_cons,
      List.append_assoc, ← ih]
    rfl

/-- Split at line breaks, rows are as many as before if and only if none has a line break. -/
theorem length_lines_ended (rows : List String) :
    (lines (String.join (rows.map (· ++ "\n")))).length = rows.length + 1 ↔
      ∀ row ∈ rows, ¬ Broken row := by
  have hlength (rows : List String) : (rows.flatMap lines).length =
      rows.length + (rows.map fun row => row.toList.count '\n').sum := by
    induction rows with
    | nil => rfl
    | cons row rows ih =>
      rw [List.flatMap_cons, List.length_append, ih, length_lines, List.length_cons, List.map_cons,
        List.sum_cons]
      omega
  have hnone : (rows.map fun row => row.toList.count '\n').sum = 0 ↔
      ∀ row ∈ rows, ¬ Broken row := by
    rw [List.sum_eq_zero_iff_forall_eq_nat, List.forall_mem_map]
    simp only [List.count_eq_zero, Broken]
  rw [lines_ended, List.length_append, hlength, List.length_singleton, ← hnone]
  omega

/-- And they are then the rows themselves. -/
theorem lines_ended_eq (rows : List String) :
    lines (String.join (rows.map (· ++ "\n"))) = rows ++ [""] ↔ ∀ row ∈ rows, ¬ Broken row := by
  constructor
  · intro h
    rw [← length_lines_ended, h, List.length_append, List.length_singleton]
  · intro h
    have hrows : rows.flatMap lines = rows := by
      induction rows with
      | nil => rfl
      | cons row rows ih =>
        rw [List.forall_mem_cons] at h
        rw [List.flatMap_cons, lines_of_not_broken h.1, ih h.2, List.singleton_append]
    rw [lines_ended, hrows]

end Text

open Text

/-! ## Rows -/

namespace Piece

/-- A fixed text of a row has a line break. -/
def Breaks (row : List Piece) : Prop := ∃ s, .text s ∈ row ∧ Broken s

variable {s : String} {id : Int} {ps qs : List Piece}

@[simp] theorem not_breaks_nil : ¬ Breaks [] := by
  rintro ⟨s, hs, -⟩
  cases hs

@[simp] theorem breaks_text : Breaks (.text s :: ps) ↔ Broken s ∨ Breaks ps := by
  simp [Breaks, or_and_right, exists_or]

@[simp] theorem breaks_operand : Breaks (.operand id :: ps) ↔ Breaks ps := by
  simp [Breaks]

@[simp] theorem breaks_reference : Breaks (.reference id :: ps) ↔ Breaks ps := by
  simp [Breaks]

@[simp] theorem breaks_label : Breaks (.label id :: ps) ↔ Breaks ps := by
  simp [Breaks]

@[simp] theorem breaks_append : Breaks (ps ++ qs) ↔ Breaks ps ∨ Breaks qs := by
  simp [Breaks, or_and_right, exists_or]

@[simp] theorem breaks_flatMap {α : Type} {f : α → List Piece} {xs : List α} :
    Breaks (xs.flatMap f) ↔ ∃ x ∈ xs, Breaks (f x) := by
  induction xs with
  | nil => simp
  | cons x xs ih => simp [ih]

theorem breaks_intercalate (hs : ¬ Broken s) {groups : List (List Piece)} :
    Breaks (List.intercalate [.text s] groups) ↔ ∃ group ∈ groups, Breaks group := by
  induction groups with
  | nil => simp
  | cons group groups ih =>
    cases groups with
    | nil => simp
    | cons next groups =>
      rw [List.intercalate_cons_cons, breaks_append, breaks_append, ih]
      simp [hs]

@[simp] theorem breaks_commas {groups : List (List Piece)} :
    Breaks (commas groups) ↔ ∃ group ∈ groups, Breaks group :=
  breaks_intercalate (by decide)

@[simp] theorem not_breaks_operandList (ids : List InstrId) : ¬ Breaks (operandList ids) := by
  simp [operandList]

end Piece

open Piece

/-! ## Names in operations -/

def AsmTarget.names : AsmTarget → List String
  | .slot name => [name]
  | .result _ => []

def AsmOutput.names (o : AsmOutput) : List String :=
  o.symbolicName :: o.constraint :: o.target.names

def AsmInput.names (i : AsmInput) : List String := [i.symbolicName, i.constraint]

/-- The names that the row of an operation shows. -/
def Operation.names : Operation → List String
  | .declVar slot _ _ | .varPtr slot => [slot.name]
  | .cast _ dest => [dest.name]
  | .call (.fn symbol) _ => [symbol]
  | .containerInitFields _ fields => fields.map FieldInit.field
  | .structInit type fields => type.name :: fields.map FieldInit.field
  | .fieldPtr _ field | .structFieldPtr _ field | .enumFieldPtr _ field => [field]
  | .asm template outputs inputs clobbers _ =>
    template :: outputs.flatMap AsmOutput.names ++ inputs.flatMap AsmInput.names ++ clobbers
  | _ => []

@[simp] theorem not_broken_inlineKeyword (isInline : Bool) : ¬ Broken (inlineKeyword isInline) := by
  cases isInline <;> decide

@[simp] theorem not_broken_safetyRemark (checked : Bool) : ¬ Broken (safetyRemark checked) := by
  cases checked <;> decide

@[simp] theorem broken_quoted {s : String} : Broken (BlockIr.quoted s) ↔ Broken s := by
  simp [BlockIr.quoted, Broken]

@[simp] theorem BinaryOp.not_broken_token (op : BinaryOp) : ¬ Broken op.token := by
  cases op <;> decide

@[simp] theorem UnaryOp.not_broken_token (op : UnaryOp) : ¬ Broken op.token := by
  cases op <;> decide

@[simp] theorem Builtin.not_broken_token (fn : Builtin) : ¬ Broken fn.token := by
  cases fn <;> decide

@[simp] theorem Setting.not_broken_token (s : Setting) : ¬ Broken s.token := by
  cases s <;> decide

/-! Parts of rows have the line breaks of their names. -/

section Parts

@[simp] theorem PhiEdge.not_breaks_pieces (edge : PhiEdge) : ¬ Breaks edge.pieces := by
  simp +decide [pieces]

@[simp] theorem SwitchCase.not_breaks_pieces (c : SwitchCase) : ¬ Breaks c.pieces := by
  simp +decide [pieces]

@[simp] theorem FieldInit.breaks_pieces {f : FieldInit} : Breaks f.pieces ↔ Broken f.field := by
  simp +decide [pieces]

@[simp] theorem AsmOutput.breaks_pieces {o : AsmOutput} :
    Breaks o.pieces ↔ AnyBroken o.names := by
  obtain ⟨symbolicName, constraint, target⟩ := o
  cases target <;>
    simp +decide [pieces, names, asmHead, AsmTarget.pieces, AsmTarget.names, or_assoc]

@[simp] theorem AsmInput.breaks_pieces {i : AsmInput} : Breaks i.pieces ↔ AnyBroken i.names := by
  simp +decide [pieces, names, asmHead]

@[simp] theorem broken_clobbers {clobbers : List String} :
    Broken (", ".intercalate (clobbers.map BlockIr.quoted)) ↔ AnyBroken clobbers := by
  rw [broken_intercalate (by decide)]
  simp [AnyBroken]

end Parts

/-- Nothing in the row of an operation has a line break but its names. -/
theorem Operation.breaks_layout (op : Operation) :
    Breaks op.layout.pieces ↔ AnyBroken op.names := by
  cases op with
  | declVar slot varType init =>
    obtain ⟨name, isConst, isInline⟩ := slot
    cases varType <;> cases isConst <;>
      simp +decide [layout, Layout.pieces, Layout.inOrder, names]
  | call callee args =>
    cases callee <;> simp +decide [layout, Layout.pieces, Layout.inOrder, names, Callee.piece]
  | phi incoming =>
    simp +decide [layout, Layout.pieces, Layout.inOrder, names, breaks_intercalate]
  | sliceType childType isConst =>
    cases isConst <;> simp +decide [layout, Layout.pieces, Layout.inOrder, names]
  | asm template outputs inputs clobbers isVolatile =>
    cases isVolatile <;>
      simp +decide [layout, Layout.pieces, Layout.inOrder, names]
  | _ => simp +decide [layout, Layout.pieces, Layout.inOrder, names]

/-! ## Names in constants -/

/-- The names in a value whose data, if it has any, has those of `static`. -/
def Value.namesWith (static : Data → List String) : Value → List String
  | .static data => static data
  | _ => []

/-- The names that data shows when it is read at a type. -/
def Ty.dataNames : Ty → Data → List String
  | .declared _ canonical, data => canonical.dataNames data
  | .plain .metaType _, .type t => [t.name]
  | .plain .fn _, .fn symbol | .plain .boundFn _, .boundFn symbol _ => [symbol]
  | .plain .namespacePath _, .namespacePath path => [path]
  | .pointer _ child _, .pointer pointee => pointee.namesWith child.dataNames
  | .array name child _, .array elements =>
    name :: elements.flatMap (Value.namesWith child.dataNames)
  | .maybe _ child, .present inner => inner.namesWith child.dataNames
  | .errorUnion name _, _ | .aggregate _ name _, _ => [name]
  | _, _ => []

/-- The names in the text of an instruction's own value. -/
def Instruction.constantNames (i : Instruction) : List String :=
  i.value.namesWith fun data =>
    match i.type with
    | some t => t.dataNames data
    | none => []

/-- The names that an instruction shows itself, its operands apart. -/
def Instruction.names (i : Instruction) : List String :=
  match i.operation with
  | .const => i.constantNames
  | operation => operation.names

@[simp] theorem AggregateKind.not_broken_word (kind : AggregateKind) : ¬ Broken kind.word := by
  cases kind <;> decide

theorem Binary64.not_mem_lastDigits (places n : Nat) : '\n' ∉ lastDigits places n := by
  have hdigit : ∀ k < 10, Nat.digitChar k ≠ '\n' := by decide
  induction places generalizing n with
  | zero => exact List.not_mem_nil
  | succ places ih =>
    rw [lastDigits, List.mem_append, List.mem_singleton, not_or]
    exact ⟨ih _, (hdigit _ (Nat.mod_lt n (by decide))).symm⟩

theorem Binary64.not_broken_fixedText (places n : Nat) : ¬ Broken (fixedText places n) := by
  have hwhole : ¬ Broken (n / tenTo places).repr := not_broken_integer (n / tenTo places : Nat)
  have hlast : ¬ Broken (String.ofList (lastDigits places n)) := by
    rw [Broken, String.toList_ofList]
    exact not_mem_lastDigits places n
  simp +decide [fixedText, hwhole, hlast]

@[simp] theorem Binary64.not_broken_fixed (x : Binary64) : ¬ Broken x.fixed := by
  have hsign (negative : Bool) : ¬ Broken (signText negative) := by cases negative <;> decide
  cases x <;> simp +decide [fixed, hsign, not_broken_fixedText]

@[simp] theorem Piece.breaks_fixed {x : Except DumpStop String} :
    Breaks (Piece.fixed x) ↔ ∃ s, x = .ok s ∧ Broken s := by
  cases x <;> simp [Piece.fixed]

theorem Value.breaks_rowWith {row : Data → List Piece} {names : Data → List String}
    (h : ∀ data, Breaks (row data) ↔ AnyBroken (names data)) (value : Value) :
    Breaks (value.rowWith row) ↔ AnyBroken (value.namesWith names) := by
  cases value with
  | static data => exact h data
  | _ => simp +decide [rowWith, namesWith]

/-- Nothing in the row of data has a line break but its names. -/
theorem Ty.breaks_dataRow (t : Ty) (data : Data) :
    Breaks (t.dataRow data) ↔ AnyBroken (t.dataNames data) := by
  induction t generalizing data with
  | declared _ canonical ih => exact ih data
  | plain kind name =>
    have hbool (b : Bool) : ¬ Broken (if b then "true" else "false") := by cases b <;> decide
    cases kind <;> cases data <;>
      simp +decide [dataRow, dataNames, dataText, PlainKind.dataText, Data.mismatch, scopeText,
        hbool]
  | pointer name child isConst ih =>
    cases data with
    | pointer pointee => simpa +decide [dataRow, dataNames] using Value.breaks_rowWith ih pointee
    | _ => simp +decide [dataRow, dataNames, dataText, Data.mismatch]
  | array name child length ih =>
    cases data with
    | array elements =>
      simp +decide [dataRow, dataNames, breaks_intercalate, Value.breaks_rowWith ih]
    | _ => simp +decide [dataRow, dataNames, dataText, Data.mismatch]
  | maybe name child ih =>
    cases data with
    | present inner => exact Value.breaks_rowWith ih inner
    | _ => simp +decide [dataRow, dataNames, dataText, Data.mismatch]
  | _ => cases data <;> simp +decide [dataRow, dataNames, dataText, Data.mismatch]

theorem Instruction.breaks_constantRow (i : Instruction) :
    Breaks i.constantRow ↔ AnyBroken i.constantNames := by
  refine Value.breaks_rowWith (fun data => ?_) i.value
  cases i.type with
  | none => simp
  | some t => exact t.breaks_dataRow data

theorem Instruction.breaks_row (i : Instruction) : Breaks i.row ↔ AnyBroken i.names := by
  by_cases hop : i.operation = .const
  · rw [row_of_const hop, names, hop]
    exact i.breaks_constantRow
  · rw [row_of_ne_const hop, Operation.breaks_layout, names]
    split
    · rename_i hconst
      exact absurd hconst hop
    · rfl

/-! ## Lines -/

namespace Executable

/-- Instructions whose values stand in a row: a known operand, and the known receivers of bound
functions in its value. -/
inductive Inlines (e : Executable) : List Piece → Instruction → Prop where
  | operand {row : List Piece} {id : InstrId} {i : Instruction} : .operand id ∈ row →
    e.instructions.find? id = some i → i.isInlined = true → Inlines e row i
  | receiver {row : List Piece} {id : InstrId} {i j : Instruction} : .operand id ∈ row →
    e.instructions.find? id = some i → i.isInlined = true → Inlines e i.constantRow j →
    Inlines e row j

/-- A line has a line break: in the name of its type, in a name that it shows itself, or in one
that the value of an operand shows. -/
def BreaksLine (e : Executable) (i : Instruction) : Prop :=
  Broken i.typeName ∨ AnyBroken i.names ∨ ∃ j, e.Inlines i.row j ∧ AnyBroken j.constantNames

/-- A name that a dump shows has a line break: the hint of a block, or a name in the line of an
instruction that is listed. -/
def ShowsBreak (e : Executable) : Prop :=
  (∃ b ∈ e.blocks.values, Broken b.nameHint) ∨
    ∃ id ∈ e.listings, ∃ i, e.instructions.find? id = some i ∧ e.BreaksLine i

variable {e : Executable} {row ps qs : List Piece} {i j : Instruction}

/-- What stands in the values of a row has a line break. -/
def InlinesBreak (e : Executable) (row : List Piece) : Prop :=
  ∃ j, e.Inlines row j ∧ Breaks j.constantRow

/-- What an operand is shown as has a line break. -/
def OperandBreaks (e : Executable) (id : InstrId) : Prop :=
  ∃ i, e.instructions.find? id = some i ∧ i.isInlined = true ∧
    (Breaks i.constantRow ∨ e.InlinesBreak i.constantRow)

theorem inlinesBreak_iff :
    e.InlinesBreak row ↔ ∃ id, .operand id ∈ row ∧ e.OperandBreaks id := by
  constructor
  · rintro ⟨j, ⟨hid, hi, hknown⟩ | ⟨hid, hi, hknown, hj⟩, hbreaks⟩
    · exact ⟨_, hid, j, hi, hknown, .inl hbreaks⟩
    · exact ⟨_, hid, _, hi, hknown, .inr ⟨j, hj, hbreaks⟩⟩
  · rintro ⟨id, hid, i, hi, hknown, hbreaks | ⟨j, hj, hbreaks⟩⟩
    · exact ⟨i, .operand hid hi hknown, hbreaks⟩
    · exact ⟨j, .receiver hid hi hknown hj, hbreaks⟩

theorem operandBreaks_iff {id : InstrId} (hi : e.instructions.find? id = some i) :
    e.OperandBreaks id ↔
      i.isInlined = true ∧ (Breaks i.constantRow ∨ e.InlinesBreak i.constantRow) := by
  simp only [OperandBreaks, hi, Option.some.injEq, exists_eq_left']

@[simp] theorem inlinesBreak_operand {id : InstrId} :
    e.InlinesBreak (.operand id :: ps) ↔ e.OperandBreaks id ∨ e.InlinesBreak ps := by
  simp only [inlinesBreak_iff, List.mem_cons, Piece.operand.injEq, or_and_right, exists_or,
    exists_eq_left]

theorem inlinesBreak_cons {piece : Piece} (hpiece : ∀ id, piece ≠ .operand id) :
    e.InlinesBreak (piece :: ps) ↔ e.InlinesBreak ps := by
  simp only [inlinesBreak_iff, List.mem_cons, (hpiece _).symm, false_or]

/-- Spelled out, a row has the line breaks of its texts and of the values in it. -/
theorem Spells.breaks_iff (h : e.Spells ps qs) : Breaks qs ↔ Breaks ps ∨ e.InlinesBreak ps := by
  induction h with
  | nil => simp [inlinesBreak_iff]
  | text _ ih =>
    rw [breaks_text, breaks_text, ih, inlinesBreak_cons (by simp), or_assoc]
  | reference _ ih =>
    rw [breaks_reference, breaks_reference, ih, inlinesBreak_cons (by simp)]
  | label _ ih =>
    rw [breaks_label, breaks_label, ih, inlinesBreak_cons (by simp)]
  | runtime hi hknown _ ih =>
    rw [breaks_reference, breaks_operand, ih, inlinesBreak_operand, operandBreaks_iff hi, hknown]
    simp
  | known hi hknown _ _ ihshown ih =>
    rw [breaks_append, breaks_operand, ihshown, ih, inlinesBreak_operand, operandBreaks_iff hi,
      or_left_comm]
    simp [hknown]

/-- A spelled row has no operand left. -/
theorem Spells.operand_notMem (h : e.Spells ps qs) (id : InstrId) : .operand id ∉ qs := by
  induction h with
  | nil => exact List.not_mem_nil
  | text _ ih | reference _ ih | label _ ih | runtime _ _ _ ih => simpa using ih
  | known _ _ _ _ ihshown ih =>
    rw [List.mem_append, not_or]
    exact ⟨ihshown, ih⟩

theorem broken_label {b : Block} : Broken b.label ↔ Broken b.nameHint := by
  simp +decide [Block.label]

theorem broken_blockReference {id : BlockId} {text : String}
    (h : e.blockReference id = .ok text) (hbroken : Broken text) :
    ∃ b ∈ e.blocks.values, Broken b.nameHint := by
  unfold blockReference at h
  split at h
  · rename_i b hb
    cases h
    exact ⟨b, Table.mem_values_of_find? hb, broken_label.mp hbroken⟩
  · cases h

/-- The text of a row without operands has the line breaks of its own texts, and of labels. -/
theorem broken_textOfAll {text : String} (hrow : ∀ id, .operand id ∉ row)
    (h : Piece.textOfAll e row = .ok text) :
    (Breaks row → Broken text) ∧
      (Broken text → Breaks row ∨ ∃ b ∈ e.blocks.values, Broken b.nameHint) := by
  obtain ⟨texts, htexts, rfl⟩ := Piece.textOfAll_eq_ok h
  simp only [broken_join]
  constructor
  · rintro ⟨s, hs, hbroken⟩
    obtain ⟨t, ht, hst⟩ := exists_of_mem_right htexts.flip hs
    cases hst
    exact ⟨s, ht, hbroken⟩
  · rintro ⟨t, ht, hbroken⟩
    obtain ⟨piece, hpiece, htext⟩ := exists_of_mem_right htexts ht
    cases piece with
    | text s =>
      cases htext
      exact .inl ⟨t, hpiece, hbroken⟩
    | operand id => exact absurd hpiece (hrow id)
    | reference id =>
      cases htext
      exact absurd hbroken (not_broken_idText id)
    | label id => exact .inr (broken_blockReference htext hbroken)

/-- The body of a line has the line breaks of the names it shows, and of labels. -/
theorem broken_body {text : String} (h : i.body e = .ok text) :
    (AnyBroken i.names ∨ (∃ j, e.Inlines i.row j ∧ AnyBroken j.constantNames) → Broken text) ∧
      (Broken text → (AnyBroken i.names ∨ ∃ j, e.Inlines i.row j ∧ AnyBroken j.constantNames) ∨
        ∃ b ∈ e.blocks.values, Broken b.nameHint) := by
  obtain ⟨row, hrow, htext⟩ := body_shows_row h
  have hbreaks := hrow.breaks_iff
  simp only [InlinesBreak, Instruction.breaks_row, Instruction.breaks_constantRow] at hbreaks
  rw [← hbreaks]
  exact broken_textOfAll hrow.operand_notMem htext

theorem broken_columns {margin : Nat} : Broken (i.columns margin) ↔ Broken i.typeName := by
  have hcount : ¬ Broken i.refCountText := by
    unfold Instruction.refCountText
    split
    · decide
    · exact not_broken_integer _
  simp +decide [Instruction.columns, hcount]

/-- A line has a line break if and only if a name that it shows has one, labels apart. -/
theorem broken_line {margin : Nat} {line : String} (h : i.line e margin = .ok line) :
    (e.BreaksLine i → Broken line) ∧
      (Broken line → e.BreaksLine i ∨ ∃ b ∈ e.blocks.values, Broken b.nameHint) := by
  obtain ⟨body, hbody, h⟩ := bind_eq_ok.mp h
  cases h
  obtain ⟨hshown, hbroken⟩ := broken_body hbody
  rw [broken_append, broken_columns, BreaksLine]
  exact ⟨Or.imp_right hshown, fun h => or_assoc.mpr (h.imp_right hbroken)⟩

end Executable

/-! ## Dumps -/

/-- A block as a dump writes it, row by row. -/
def WrittenBlock.rows (w : WrittenBlock) : List String := (w.label ++ ":") :: w.lines

theorem WrittenBlock.chunks_eq (w : WrittenBlock) : w.chunks = w.rows.map (· ++ "\n") := by
  simp [chunks, rows, String.append_assoc]

theorem WrittenBlock.length_rows (blocks : List WrittenBlock) :
    (blocks.flatMap rows).length = blocks.length + (blocks.flatMap lines).length := by
  induction blocks with
  | nil => rfl
  | cons w blocks ih =>
    simp only [List.flatMap_cons, List.length_append, List.length_cons, rows, ih]
    omega

namespace Executable

variable {e : Executable} {margin : Nat} {blocks : List WrittenBlock} {text : String}

/-- One of the rows that are written has a line break if and only if a name that is shown has
one. -/
theorem broken_rows (h : e.written margin = .ok blocks) :
    (∃ row ∈ blocks.flatMap WrittenBlock.rows, Broken row) ↔ e.ShowsBreak := by
  have hlabels := labels_of_written h
  have hlines := lines_of_written h
  constructor
  · rintro ⟨row, hrow, hbroken⟩
    obtain ⟨w, hw, hrow⟩ := List.mem_flatMap.mp hrow
    rcases List.mem_cons.mp hrow with rfl | hrow
    · left
      have hlabel : w.label ∈ e.blocks.values.map Block.label := by
        rw [← hlabels]
        exact List.mem_map_of_mem hw
      obtain ⟨b, hb, hlabel⟩ := List.mem_map.mp hlabel
      refine ⟨b, hb, broken_label.mp ?_⟩
      rw [hlabel]
      simpa +decide using hbroken
    · obtain ⟨id, hid, i, hi, hline⟩ :=
        exists_of_mem_right hlines (List.mem_flatMap.mpr ⟨w, hw, hrow⟩)
      rcases (broken_line hline).2 hbroken with hbreaks | hhint
      · exact .inr ⟨id, hid, i, hi, hbreaks⟩
      · exact .inl hhint
  · rintro (⟨b, hb, hbroken⟩ | ⟨id, hid, i, hi, hbreaks⟩)
    · have hlabel : b.label ∈ blocks.map WrittenBlock.label := by
        rw [hlabels]
        exact List.mem_map_of_mem hb
      obtain ⟨w, hw, hlabel⟩ := List.mem_map.mp hlabel
      refine ⟨w.label ++ ":", List.mem_flatMap.mpr ⟨w, hw, List.mem_cons_self⟩, ?_⟩
      rw [broken_append, hlabel, broken_label]
      exact .inl hbroken
    · obtain ⟨line, hline, i', hi', hline'⟩ := exists_of_mem_right hlines.flip hid
      cases hi.symm.trans hi'
      obtain ⟨w, hw, hrow⟩ := List.mem_flatMap.mp hline
      exact ⟨line, List.mem_flatMap.mpr ⟨w, hw, List.mem_cons_of_mem _ hrow⟩,
        (broken_line hline').1 hbreaks⟩

theorem chunks_eq_rows (blocks : List WrittenBlock) :
    blocks.flatMap WrittenBlock.chunks =
      (blocks.flatMap WrittenBlock.rows).map (· ++ "\n") := by
  rw [List.map_flatMap]
  exact List.flatMap_congr fun w _ => w.chunks_eq

/-- Split at its line breaks, a dump gives back the rows that were written if and only if no name
that is shown has a line break. -/
theorem lines_of_written_eq (h : e.written margin = .ok blocks) :
    lines (String.join (blocks.flatMap WrittenBlock.chunks)) =
        blocks.flatMap WrittenBlock.rows ++ [""] ↔ ¬ e.ShowsBreak := by
  rw [chunks_eq_rows, lines_ended_eq, ← broken_rows h, not_exists]
  simp only [not_and]

/-- And then it has a line for every block and one for every listed instruction. -/
theorem length_lines_of_written (h : e.written margin = .ok blocks) :
    (lines (String.join (blocks.flatMap WrittenBlock.chunks))).length =
        e.blocks.values.length + e.listings.length + 1 ↔ ¬ e.ShowsBreak := by
  have hlabels := congrArg List.length (labels_of_written h)
  have hlines := (lines_of_written h).length_eq
  have hrows : (blocks.flatMap WrittenBlock.rows).length =
      e.blocks.values.length + e.listings.length := by
    rw [List.length_map, List.length_map] at hlabels
    rw [WrittenBlock.length_rows, ← hlabels, hlines]
  rw [chunks_eq_rows, ← hrows, length_lines_ended, ← broken_rows h, not_exists]
  simp only [not_and]

/-- A dump into a text has written every block. -/
theorem written_of_format (h : e.format margin = .ok text) :
    ∃ blocks, e.written margin = .ok blocks ∧
      text = String.join (blocks.flatMap WrittenBlock.chunks) := by
  have hdump : (e.dump margin BufferSink.empty).2 = none := by
    unfold format at h
    split at h
    · rename_i hdump
      rw [hdump]
    · cases h
  obtain ⟨blocks, hblocks⟩ := written_of_dump hdump
  exact ⟨blocks, hblocks, Except.ok.inj (h.symm.trans (format_of_written hblocks))⟩

end Executable

end BlockIr
