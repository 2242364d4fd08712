import BlockIr.Proofs.Rows

/-!
# Spelling out what a line shows

The row of an operation holds its operands. A line shows an operand by its id, or by its value
when that is known, and a bound function in a value shows one more operand, and so on. Spelled
out, a line is a row of fixed texts, ids and labels only: nothing is left to look up but the
names of blocks.

* `Instruction.row`: what an instruction shows, its operands not yet looked up.
* `Executable.Spells`: a row, with every operand replaced by what it is shown as.
* `Executable.body_shows_row`: the body of a line is the text of its row, spelled out.
* `Executable.Spells.reference_mem`, `Executable.Spells.label_mem`: no id is made up.
-/

namespace BlockIr

/-! ## Rows of constants -/

/-- A text in which no instruction is shown. -/
def Piece.fixed : Except DumpStop String → List Piece
  | .ok s => [.text s]
  | .error _ => []

/-- The row of a value whose data, if it has any, is shown as `static`. -/
def Value.rowWith (static : Data → List Piece) : Value → List Piece
  | .undef => [.text "undefined"]
  | .zeroes => [.text "zeroes"]
  | .static data => static data
  | .runtime | .unrecognised _ => []

/-- The row of data read at a type. The receiver of a bound function is an operand; everything
else is fixed text. -/
def Ty.dataRow : Ty → Data → List Piece
  | .declared _ canonical, data => canonical.dataRow data
  | .plain .boundFn _, .boundFn symbol receiver =>
    [.text ("bound " ++ symbol ++ " to "), .operand receiver]
  | .pointer _ child _, .pointer pointee => .text "&" :: pointee.rowWith child.dataRow
  | .array name child _, .array elements =>
    .text (name ++ "\x7b") ::
      List.intercalate [.text ","] (elements.map (Value.rowWith child.dataRow)) ++ [.text "\x7d"]
  | .maybe _ child, .present inner => inner.rowWith child.dataRow
  | t, data => Piece.fixed (t.dataText (fun _ => .ok "") data)

/-- The row of an instruction's own value. -/
def Instruction.constantRow (i : Instruction) : List Piece :=
  i.value.rowWith fun data =>
    match i.type with
    | some t => t.dataRow data
    | none => []

/-- The row an instruction is shown as. -/
def Instruction.row (i : Instruction) : List Piece :=
  match i.operation with
  | .const => i.constantRow
  | operation => operation.layout.pieces

/-! ## Ids in rows -/

theorem mem_of_mem_intercalate {α : Type} {sep : List α} {groups : List (List α)} {x : α}
    (h : x ∈ List.intercalate sep groups) : x ∈ sep ∨ ∃ group ∈ groups, x ∈ group := by
  induction groups with
  | nil => cases h
  | cons group groups ih =>
    cases groups with
    | nil =>
      rw [List.intercalate_singleton] at h
      exact .inr ⟨group, List.mem_cons_self, h⟩
    | cons next groups =>
      rw [List.intercalate_cons_cons, List.mem_append, List.mem_append] at h
      rcases h with (h | h) | h
      · exact .inr ⟨group, List.mem_cons_self, h⟩
      · exact .inl h
      · rcases ih h with h | ⟨group', hmem, h⟩
        · exact .inl h
        · exact .inr ⟨group', List.mem_cons_of_mem _ hmem, h⟩

/-- Fixed text, or one of some instructions, shown as an operand. -/
def Piece.InConstant (receivers : List InstrId) : Piece → Prop
  | .text _ => True
  | .operand id => id ∈ receivers
  | .reference _ | .label _ => False

namespace Piece.InConstant

variable {piece : Piece}

theorem mono {rs rs' : List InstrId} (hsub : rs ⊆ rs') (h : piece.InConstant rs) :
    piece.InConstant rs' := by
  cases piece with
  | operand id => exact hsub h
  | _ => exact h

theorem of_fixed {rs : List InstrId} {x : Except DumpStop String} (h : piece ∈ Piece.fixed x) :
    piece.InConstant rs := by
  cases x with
  | ok s =>
    cases List.mem_singleton.mp h
    trivial
  | error p => cases h

theorem of_rowWith {staticRow : Data → List Piece} {value : Value}
    (hstatic : ∀ data, piece ∈ staticRow data → piece.InConstant data.references)
    (h : piece ∈ value.rowWith staticRow) : piece.InConstant value.references := by
  cases value with
  | static data => exact hstatic data h
  | undef | zeroes =>
    cases List.mem_singleton.mp h
    trivial
  | runtime | unrecognised _ => cases h

/-- The row of data shows no block, and no instruction but those the data names. -/
theorem of_dataRow (t : Ty) {data : Data} (h : piece ∈ t.dataRow data) :
    piece.InConstant data.references := by
  induction t generalizing data with
  | declared _ canonical ih => exact ih h
  | plain kind name =>
    cases kind with
    | boundFn =>
      cases data with
      | boundFn symbol r =>
        rcases List.mem_pair.mp h with rfl | rfl
        · trivial
        · exact List.mem_singleton_self r
      | _ => cases h
    | _ => exact of_fixed h
  | pointer name child isConst ih =>
    cases data with
    | pointer pointee =>
      rcases List.mem_cons.mp h with rfl | h
      · trivial
      · exact of_rowWith (fun _ => ih) h
    | _ => cases h
  | array name child length ih =>
    cases data with
    | array elements =>
      rcases List.mem_append.mp h with h | h
      · rcases List.mem_cons.mp h with rfl | h
        · trivial
        · rcases mem_of_mem_intercalate h with h | ⟨row, hrow, h⟩
          · cases List.mem_singleton.mp h
            trivial
          · obtain ⟨value, hvalue, rfl⟩ := List.mem_map.mp hrow
            refine (of_rowWith (fun _ => ih) h).mono fun r hr => ?_
            exact Value.mem_referencesOfAll.mpr ⟨value, hvalue, hr⟩
      · cases List.mem_singleton.mp h
        trivial
    | _ => cases h
  | maybe name child ih =>
    cases data with
    | present inner => exact of_rowWith (fun _ => ih) h
    | _ => exact of_fixed h
  | _ => exact of_fixed h

theorem of_constantRow {i : Instruction} (h : piece ∈ i.constantRow) :
    piece.InConstant i.references := by
  refine of_rowWith (fun data h => ?_) h
  cases ht : i.type with
  | none =>
    rw [ht] at h
    cases h
  | some t =>
    rw [ht] at h
    exact of_dataRow t h

end Piece.InConstant

namespace Instruction

variable {i : Instruction}

theorem row_of_const (hop : i.operation = .const) : i.row = i.constantRow := by
  rw [row, hop]

theorem row_of_ne_const (hop : i.operation ≠ .const) : i.row = i.operation.layout.pieces := by
  unfold row
  split
  · rename_i hconst
    exact absurd hconst hop
  · rfl

/-- The only instruction that is shown by its id in any case is the destination of a store. -/
theorem reference_mem_row {id : InstrId} :
    .reference id ∈ i.row ↔ ∃ a, i.operation = .storePtr id a := by
  by_cases hop : i.operation = .const
  · rw [row_of_const hop, hop]
    constructor
    · intro h
      exact (Piece.InConstant.of_constantRow h).elim
    · rintro ⟨a, h⟩
      cases h
  · rw [row_of_ne_const hop, Operation.reference_mem_layout, Operation.reference_mem_shown]

/-- The blocks that are shown are the targets. -/
theorem label_mem_row {id : BlockId} : .label id ∈ i.row ↔ id ∈ i.targets := by
  by_cases hop : i.operation = .const
  · rw [row_of_const hop, targets, hop]
    constructor
    · intro h
      exact (Piece.InConstant.of_constantRow h).elim
    · intro h
      cases h
  · rw [row_of_ne_const hop]
    exact Operation.label_mem_layout

end Instruction

/-! ## Spelled rows -/

namespace Executable

/-- A row, and the same row with every operand replaced by what it is shown as: a runtime operand
by its id, a known one by its value, spelled out in turn. -/
inductive Spells (e : Executable) : List Piece → List Piece → Prop where
  | nil : Spells e [] []
  | text {s : String} {ps qs : List Piece} : Spells e ps qs →
    Spells e (.text s :: ps) (.text s :: qs)
  | reference {id : InstrId} {ps qs : List Piece} : Spells e ps qs →
    Spells e (.reference id :: ps) (.reference id :: qs)
  | label {id : BlockId} {ps qs : List Piece} : Spells e ps qs →
    Spells e (.label id :: ps) (.label id :: qs)
  | runtime {id : InstrId} {i : Instruction} {ps qs : List Piece} :
    e.instructions.find? id = some i → i.isInlined = false → Spells e ps qs →
    Spells e (.operand id :: ps) (.reference i.id :: qs)
  | known {id : InstrId} {i : Instruction} {ps qs shown : List Piece} :
    e.instructions.find? id = some i → i.isInlined = true → Spells e i.constantRow shown →
    Spells e ps qs → Spells e (.operand id :: ps) (shown ++ qs)

/-- Spelled out, the row has this text. -/
def Shows (e : Executable) (ps : List Piece) (text : String) : Prop :=
  ∃ row, e.Spells ps row ∧ Piece.textOfAll e row = .ok text

variable {e : Executable}

/-! ## Texts of rows -/

namespace Spells

variable {ps ps' qs qs' : List Piece}

theorem append (hp : e.Spells ps ps') (hq : e.Spells qs qs') :
    e.Spells (ps ++ qs) (ps' ++ qs') := by
  induction hp with
  | nil => exact hq
  | text _ ih => exact .text ih
  | reference _ ih => exact .reference ih
  | label _ ih => exact .label ih
  | runtime hi hknown _ ih => exact .runtime hi hknown ih
  | known hi hknown hshown _ _ ih =>
    rw [List.cons_append, List.append_assoc]
    exact .known hi hknown hshown ih

end Spells

theorem textOfAll_append {ps qs : List Piece} {s t : String}
    (hp : Piece.textOfAll e ps = .ok s) (hq : Piece.textOfAll e qs = .ok t) :
    Piece.textOfAll e (ps ++ qs) = .ok (s ++ t) := by
  obtain ⟨ss, hss, rfl⟩ := Piece.textOfAll_eq_ok hp
  obtain ⟨ts, hts, rfl⟩ := Piece.textOfAll_eq_ok hq
  rw [Piece.textOfAll, mapM_of_forall₂ (List.rel_append hss hts), ok_bind, String.join_append]
  rfl

theorem textOfAll_singleton {piece : Piece} {s : String} (h : piece.textIn e = .ok s) :
    Piece.textOfAll e [piece] = .ok s := by
  rw [Piece.textOfAll, mapM_of_forall₂ (.cons h .nil), ok_bind, String.join_cons, String.join_nil,
    String.append_empty]
  rfl

namespace Shows

variable {ps qs : List Piece} {s t : String}

theorem nil : e.Shows [] "" := ⟨[], .nil, rfl⟩

theorem text (s : String) : e.Shows [.text s] s := ⟨[.text s], .text .nil, textOfAll_singleton rfl⟩

theorem append (hp : e.Shows ps s) (hq : e.Shows qs t) : e.Shows (ps ++ qs) (s ++ t) := by
  obtain ⟨ps', hps, hs⟩ := hp
  obtain ⟨qs', hqs, ht⟩ := hq
  exact ⟨ps' ++ qs', hps.append hqs, textOfAll_append hs ht⟩

theorem intercalate (sep : String) {groups : List (List Piece)} {items : List String}
    (h : List.Forall₂ e.Shows groups items) :
    e.Shows (List.intercalate [.text sep] groups) (sep.intercalate items) := by
  induction h with
  | nil => exact nil
  | @cons group item groups items hgroup hrest ih =>
    cases hrest with
    | nil =>
      rw [List.intercalate_singleton, String.intercalate_singleton]
      exact hgroup
    | cons _ _ =>
      rw [List.intercalate_cons_cons, String.intercalate_cons_cons]
      exact (hgroup.append (text sep)).append ih

theorem known {id : InstrId} {i : Instruction} (hi : e.instructions.find? id = some i)
    (hknown : i.isInlined = true) (h : e.Shows i.constantRow s) : e.Shows [.operand id] s := by
  obtain ⟨row, hrow, hs⟩ := h
  refine ⟨row ++ [], .known hi hknown hrow .nil, ?_⟩
  rwa [List.append_nil]

theorem runtime {id : InstrId} {i : Instruction} (hi : e.instructions.find? id = some i)
    (hknown : i.isInlined = false) : e.Shows [.operand id] (DumpError.idText i.id) :=
  ⟨[.reference i.id], .runtime hi hknown .nil, textOfAll_singleton rfl⟩

theorem fixed {x : Except DumpStop String} (h : x = .ok s) : e.Shows (Piece.fixed x) s := by
  rw [h]
  exact text s

end Shows

/-! ## Texts of constants -/

section Constants

variable {receiver : InstrId → Except DumpStop String}

theorem textWith_shows {typeName : String} {static : Data → Except DumpStop String}
    {staticRow : Data → List Piece} {value : Value} {s : String}
    (hstatic : ∀ data s, static data = .ok s → e.Shows (staticRow data) s)
    (h : value.textWith typeName static = .ok s) : e.Shows (value.rowWith staticRow) s := by
  cases value with
  | runtime => cases h
  | undef =>
    cases h
    exact .text "undefined"
  | zeroes =>
    cases h
    exact .text "zeroes"
  | static data => exact hstatic data s h
  | unrecognised state => cases h

/-- The text of data is that of its row, spelled out, where the texts of receivers are. -/
theorem dataText_shows (hreceiver : ∀ r s, receiver r = .ok s → e.Shows [.operand r] s) (t : Ty)
    {data : Data} {s : String} (h : t.dataText receiver data = .ok s) :
    e.Shows (t.dataRow data) s := by
  induction t generalizing data s with
  | declared _ canonical ih => exact ih h
  | plain kind name =>
    cases kind with
    | boundFn =>
      cases data with
      | boundFn symbol r =>
        obtain ⟨argument, hargument, h⟩ := bind_eq_ok.mp h
        cases h
        exact (Shows.text ("bound " ++ symbol ++ " to ")).append (hreceiver r argument hargument)
      | _ => cases h
    | _ => exact .fixed h
  | pointer name child isConst ih =>
    cases data with
    | pointer pointee =>
      obtain ⟨inner, hinner, h⟩ := bind_eq_ok.mp h
      cases h
      exact (Shows.text "&").append (textWith_shows (fun _ _ => ih) hinner)
    | _ => cases h
  | array name child length ih =>
    cases data with
    | array elements =>
      rw [Ty.dataText] at h
      split at h
      · obtain ⟨items, hitems, h⟩ := bind_eq_ok.mp h
        cases h
        have hshown : List.Forall₂ e.Shows (elements.map (Value.rowWith child.dataRow)) items := by
          rw [List.forall₂_map_left_iff]
          exact (mapM_eq_ok hitems).imp fun _ _ => textWith_shows fun _ _ => ih
        exact ((Shows.text (name ++ "\x7b")).append (.intercalate "," hshown)).append (.text "\x7d")
      · cases h
    | _ => cases h
  | maybe name child ih =>
    cases data with
    | present inner => exact textWith_shows (fun _ _ => ih) h
    | _ => exact .fixed h
  | _ => exact .fixed h

theorem constantText_shows (hreceiver : ∀ r s, receiver r = .ok s → e.Shows [.operand r] s)
    {i : Instruction} {s : String} (h : i.constantText receiver = .ok s) :
    e.Shows i.constantRow s := by
  unfold Instruction.constantText at h
  unfold Instruction.constantRow
  cases hv : i.value with
  | static data =>
    rw [hv] at h
    cases ht : i.type with
    | none =>
      rw [ht] at h
      cases h
    | some t =>
      rw [ht] at h
      exact dataText_shows hreceiver t h
  | undef =>
    rw [hv] at h
    cases h
    exact .text "undefined"
  | zeroes =>
    rw [hv] at h
    cases h
    exact .text "zeroes"
  | runtime =>
    rw [hv] at h
    cases h
  | unrecognised state =>
    rw [hv] at h
    cases ht : i.type <;> rw [ht] at h <;> cases h

end Constants

/-! ## Texts of lines -/

theorem operandWithin_shows {reach : Nat} {id : InstrId} {s : String}
    (h : e.operandWithin reach id = .ok s) : e.Shows [.operand id] s := by
  induction reach generalizing id s with
  | zero => cases h
  | succ reach ih =>
    rw [operandWithin, lookup] at h
    cases hi : e.instructions.find? id with
    | none =>
      rw [hi] at h
      cases h
    | some i =>
      rw [hi] at h
      simp only [ok_bind] at h
      split at h
      · rename_i hknown
        -- The receivers of its value are operands with a smaller bound.
        exact .known hi hknown (constantText_shows (fun _ _ => ih) h)
      · rename_i hknown
        cases h
        exact .runtime hi (Bool.eq_false_iff.mpr hknown)

theorem textIn_shows {piece : Piece} {s : String} (h : piece.textIn e = .ok s) :
    e.Shows [piece] s := by
  cases piece with
  | text s' =>
    cases h
    exact .text s
  | operand id => exact operandWithin_shows h
  | reference id => exact ⟨[.reference id], .reference .nil, textOfAll_singleton h⟩
  | label id => exact ⟨[.label id], .label .nil, textOfAll_singleton h⟩

theorem texts_show {pieces : List Piece} {texts : List String}
    (h : List.Forall₂ (fun piece t => piece.textIn e = .ok t) pieces texts) :
    e.Shows pieces (String.join texts) := by
  induction h with
  | nil => exact .nil
  | @cons piece t pieces texts hpiece _ ih =>
    rw [String.join_cons]
    exact (textIn_shows hpiece).append ih

/-- The body of a line is the text of its row, spelled out. -/
theorem body_shows_row {i : Instruction} {text : String} (h : i.body e = .ok text) :
    e.Shows i.row text := by
  by_cases hop : i.operation = .const
  · rw [Instruction.body, hop] at h
    rw [Instruction.row_of_const hop]
    exact constantText_shows (fun _ _ => operandWithin_shows) h
  · obtain ⟨texts, htexts, rfl⟩ := Instruction.texts_of_body h hop
    rw [Instruction.row_of_ne_const hop]
    exact texts_show htexts

end Executable

/-! ## Ids in spelled rows -/

namespace Executable.Spells

variable {e : Executable} {ps qs : List Piece}

/-- What is neither text nor an operand was in the row before, or it is the id of an operand. -/
theorem mem (h : e.Spells ps qs) {piece : Piece} (hpiece : ∀ rs, ¬ piece.InConstant rs)
    (hmem : piece ∈ qs) :
    piece ∈ ps ∨ ∃ i ∈ e.instructions.values, piece = .reference i.id := by
  induction h with
  | nil => cases hmem
  | text _ ih | reference _ ih | label _ ih =>
    rcases List.mem_cons.mp hmem with rfl | hmem
    · exact .inl List.mem_cons_self
    · exact (ih hmem).imp_left (List.mem_cons_of_mem _)
  | runtime hi _ _ ih =>
    rcases List.mem_cons.mp hmem with rfl | hmem
    · exact .inr ⟨_, Table.mem_values_of_find? hi, rfl⟩
    · exact (ih hmem).imp_left (List.mem_cons_of_mem _)
  | known _ _ _ _ ihshown ih =>
    rcases List.mem_append.mp hmem with hmem | hmem
    · rcases ihshown hmem with hmem | hstored
      · exact absurd (Piece.InConstant.of_constantRow hmem) (hpiece _)
      · exact .inr hstored
    · exact (ih hmem).imp_left (List.mem_cons_of_mem _)

theorem label_mem (h : e.Spells ps qs) {id : BlockId} (hid : .label id ∈ qs) : .label id ∈ ps := by
  have hlabel (rs : List InstrId) : ¬ (Piece.label id).InConstant rs := fun hid => hid
  rcases h.mem hlabel hid with hid | ⟨_, -, hid⟩
  · exact hid
  · cases hid

theorem reference_mem (h : e.Spells ps qs) {id : InstrId} (hid : .reference id ∈ qs) :
    .reference id ∈ ps ∨ ∃ i ∈ e.instructions.values, i.id = id := by
  have hreference (rs : List InstrId) : ¬ (Piece.reference id).InConstant rs := fun hid => hid
  rcases h.mem hreference hid with hid | ⟨i, hi, hid⟩
  · exact .inl hid
  · cases hid
    exact .inr ⟨i, hi, rfl⟩

end Executable.Spells

end BlockIr
