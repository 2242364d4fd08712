import BlockIr.Proofs.Description.Constant

/-!
# Writing constants

A payload is written without its type: pointers and optionals are as transparent as they are to
the reader, and a shape of a single value is written as an empty mapping. Read at its type, the
text of data in the range of the type is that data again.

* `Data.types`: the types that have to be named.
* `readData_toDoc`, `readValue_toDoc`: what is written is read back.
-/

namespace BlockIr

section Writing

variable (key : Ty → String)

mutual

/-- How a value is written, where `key` tells the keys of types. -/
def Value.toDoc : Value → Doc
  | .runtime => .map [("special", .text "runtime")]
  | .undef => .map [("special", .text "undef")]
  | .zeroes => .map [("special", .text "zeroes")]
  | .static data => data.toDoc
  | .unrecognised _ => .null

/-- How a payload is written. Where the type leaves no choice, any mapping will do. -/
def Data.toDoc : Data → Doc
  | .void | .aggregate | .pureError => .map []
  | .int n => .int n
  | .float x => .float x
  | .bool b => .bool b
  | .type t => .text (key t)
  | .fn s | .namespacePath s => .text s
  | .scope line column => .map [("line", .int line), ("column", .int column)]
  | .boundFn symbol receiver => .map [("fn", .text symbol), ("firstArg", .int receiver)]
  | .array elements => .list (Value.toDocs elements)
  | .absent | .unrecognised _ => .null
  | .pointer value | .present value => value.toDoc

def Value.toDocs : List Value → List Doc
  | [] => []
  | value :: rest => value.toDoc :: Value.toDocs rest

end

theorem Value.toDocs_eq_map (values : List Value) :
    Value.toDocs key values = values.map (Value.toDoc key) := by
  induction values with
  | nil => rfl
  | cons value rest ih => rw [Value.toDocs, ih, List.map_cons]

end Writing

mutual

/-- Types in a value, at any depth. -/
def Value.types : Value → List Ty
  | .static data => data.types
  | _ => []

def Data.types : Data → List Ty
  | .type t => [t]
  | .pointer value | .present value => value.types
  | .array elements => Value.typesOfAll elements
  | _ => []

def Value.typesOfAll : List Value → List Ty
  | [] => []
  | value :: rest => value.types ++ Value.typesOfAll rest

end

theorem Value.mem_typesOfAll {t : Ty} {values : List Value} :
    t ∈ Value.typesOfAll values ↔ ∃ value ∈ values, t ∈ value.types := by
  induction values with
  | nil => simp [Value.typesOfAll]
  | cons value rest ih => simp [Value.typesOfAll, ih]

/-- Whatever has to be `named` for a type is named. -/
theorem Ty.Reads.types {named : Ty → Prop} {t : Ty} {data : Data} (h : t.Reads named data) :
    ∀ u ∈ data.types, named u := by
  induction t generalizing data with
  | declared _ _ ih => exact ih h
  | plain kind _ =>
    intro u hu
    cases kind with
    | metaType =>
      cases data with
      | type t =>
        obtain rfl := List.mem_singleton.mp hu
        exact h
      | _ => exact h.elim
    | _ => cases data <;> first | exact h.elim | cases hu
  | pointer _ _ _ ih =>
    obtain ⟨inner, rfl, hinner⟩ := h.pointer
    have hpointee := ih hinner
    exact hpointee
  | array _ _ _ ih =>
    obtain ⟨elements, rfl, -, hknown⟩ := h.array
    intro u hu
    obtain ⟨value, hvalue, hu⟩ := Value.mem_typesOfAll.mp hu
    cases value with
    | static inner => exact ih (hknown _ hvalue) u hu
    | _ => cases hu
  | maybe _ _ ih =>
    obtain rfl | ⟨inner, rfl, -, hinner⟩ := h.maybe
    · intro u hu
      cases hu
    · have hpayload := ih hinner
      exact hpayload
  | _ =>
    intro u hu
    cases data <;> first | exact h.elim | cases hu

theorem Value.ReadsAt.types {type : Option Ty} {value : Value} (h : value.ReadsAt type) :
    ∀ t ∈ value.types, t.Declarable := by
  cases value with
  | static data =>
    obtain ⟨_, -, h⟩ := h
    exact h.types
  | _ =>
    intro t ht
    cases ht

/-! ## Nodes of payloads -/

section Nodes

variable {named : Ty → Prop} {key : Ty → String} {place : Place}

theorem PlainKind.Reads.has_special {kind : PlainKind} {data : Data} (h : kind.Reads named data) :
    (⟨data.toDoc key, place⟩ : Node).has "special" = false := by
  cases kind <;> cases data <;> first | exact h.elim | rfl

/-- A payload spells out no state. -/
theorem Ty.Reads.has_special {t : Ty} {data : Data} (h : t.Reads named data) :
    (⟨data.toDoc key, place⟩ : Node).has "special" = false := by
  induction t generalizing data with
  | declared _ _ ih => exact ih h
  | plain kind name => exact PlainKind.Reads.has_special h
  | pointer _ _ _ ih =>
    obtain ⟨inner, rfl, hinner⟩ := h.pointer
    have hpointee := ih hinner
    exact hpointee
  | maybe _ _ ih =>
    obtain rfl | ⟨inner, rfl, -, hinner⟩ := h.maybe
    · rfl
    · have hpayload := ih hinner
      exact hpayload
  | _ => cases data <;> first | exact h.elim | rfl

/-- Only a payload that a null node gives is written as one. -/
theorem Ty.Reads.fromNull {t : Ty} {data : Data} (h : t.Reads named data)
    (hnull : (data.toDoc key).isNull = true) : data.FromNull := by
  induction t generalizing data with
  | declared _ _ ih => exact ih h hnull
  | pointer _ _ _ ih =>
    obtain ⟨inner, rfl, hinner⟩ := h.pointer
    have hpointee := ih hinner hnull
    exact hpointee
  | maybe _ _ ih =>
    obtain rfl | ⟨inner, rfl, hsome, hinner⟩ := h.maybe
    · trivial
    · exact absurd (ih hinner hnull) hsome
  | plain kind _ =>
    cases kind <;> cases data <;> first | exact h.elim | cases hnull
  | _ => cases data <;> first | exact h.elim | cases hnull

end Nodes

/-! ## Reading back -/

section ReadingBack

variable {types : TypeTable} {key : Ty → String} {named : Ty → Prop} {place : Place}

theorem readState_static {payload : Node → Reading Data} {data : Data}
    (hspecial : (⟨data.toDoc key, place⟩ : Node).has "special" = false)
    (hdata : payload ⟨data.toDoc key, place⟩ = .ok data) :
    readState ⟨(Value.static data).toDoc key, place⟩ payload = .ok (.static data) := by
  rw [Value.toDoc, readState, hspecial, hdata]
  rfl

/-- A state that has a word is written as its word. -/
theorem readState_bare {value : Value} {w : String} {payload : Node → Reading Data}
    (hdoc : value.toDoc key = .map [("special", .text w)]) (hw : bareState? w = some value) :
    readState ⟨value.toDoc key, place⟩ payload = .ok value := by
  rw [hdoc, readState, if_pos (by rfl), Node.field_map (d := .text w) rfl, ok_bind,
    Node.word_text hw]

/-- A value is read back if its data is. -/
theorem readState_toDoc {payload : Node → Reading Data} {value : Value} {P : Data → Prop}
    (h : value = .runtime ∨ value.KnownBy P)
    (hspecial : ∀ data, P data → (⟨data.toDoc key, place⟩ : Node).has "special" = false)
    (hdata : ∀ data, value = .static data → P data →
      payload ⟨data.toDoc key, place⟩ = .ok data) :
    readState ⟨value.toDoc key, place⟩ payload = .ok value := by
  rcases h with rfl | h
  · exact readState_bare (w := "runtime") rfl rfl
  · cases value with
    | undef => exact readState_bare (w := "undef") rfl rfl
    | zeroes => exact readState_bare (w := "zeroes") rfl rfl
    | static data => exact readState_static (hspecial data h) (hdata data rfl h)
    | runtime => exact h.elim
    | unrecognised => exact h.elim

/-- A known value is read back as a part of a constant, if its data is. -/
theorem readPart_toDoc {payload : Node → Reading Data} {value : Value} {P : Data → Prop}
    (h : value.KnownBy P)
    (hspecial : ∀ data, P data → (⟨data.toDoc key, place⟩ : Node).has "special" = false)
    (hdata : ∀ data, value = .static data → P data →
      payload ⟨data.toDoc key, place⟩ = .ok data) :
    readPart payload ⟨value.toDoc key, place⟩ = .ok value := by
  rw [readPart, readState_toDoc (.inr h) hspecial hdata, ok_bind]
  cases value with
  | runtime => exact h.elim
  | _ => rfl

theorem PlainKind.readData_toDoc {kind : PlainKind} {name : String} {data : Data}
    (h : kind.Reads named data)
    (htypes : ∀ t ∈ data.types, ∀ place, types.lookup ⟨.text (key t), place⟩ = .ok t) :
    readData types (.plain kind name) ⟨data.toDoc key, place⟩ = .ok data := by
  cases kind with
  | metaType =>
    cases data with
    | type t => simp only [readData, Data.toDoc, htypes t List.mem_cons_self, map_ok]
    | _ => exact h.elim
  | block =>
    cases data with
    | scope line column =>
      simp only [readData, Data.toDoc]
      rw [Node.id_map (n := line) rfl h.1, ok_bind, Node.id_map (n := column) rfl h.2]
      rfl
    | _ => exact h.elim
  | boundFn =>
    cases data with
    | boundFn symbol receiver =>
      simp only [readData, Data.toDoc]
      rw [Node.field_map (d := .text symbol) rfl, ok_bind, Node.id_map (n := receiver) rfl h]
      rfl
    | _ => exact h.elim
  | _ => cases data <;> first | exact h.elim | rfl

/-- Data in the range of its type is read back. -/
theorem readData_toDoc (t : Ty) {data : Data} (h : t.Reads named data)
    (htypes : ∀ t ∈ data.types, ∀ place, types.lookup ⟨.text (key t), place⟩ = .ok t) :
    readData types t ⟨data.toDoc key, place⟩ = .ok data := by
  induction t generalizing data place with
  | declared name canonical ih => exact ih h htypes
  | plain kind name => exact PlainKind.readData_toDoc h htypes
  | pointer name child isConst ih =>
    obtain ⟨inner, rfl, hinner⟩ := h.pointer
    have hread : readPart (readData types child) ⟨(Value.static inner).toDoc key, place⟩ =
        .ok (.static inner) :=
      readPart_toDoc (P := child.Reads named) hinner (fun _ => Ty.Reads.has_special)
        fun data heq hdata => ih hdata (by cases heq; exact htypes)
    rw [readData, Data.toDoc, hread]
    rfl
  | array name child length ih =>
    obtain ⟨elements, rfl, hlength, hknown⟩ := h.array
    have helements : ∀ value ∈ elements, ∀ place,
        readPart (readData types child) ⟨value.toDoc key, place⟩ = .ok value := by
      intro value hvalue place
      refine readPart_toDoc (hknown value hvalue) (fun _ => Ty.Reads.has_special) ?_
      rintro data rfl hdata
      refine ih hdata fun t ht => htypes t ?_
      exact Value.mem_typesOfAll.mpr ⟨_, hvalue, ht⟩
    simp only [readData, Data.toDoc, Value.toDocs_eq_map, Node.list, ok_bind, List.length_mapIdx,
      List.length_map, hlength, if_true, Node.mapM_mapIdx helements, pure_eq_ok]
  | maybe name child ih =>
    obtain rfl | ⟨inner, rfl, hsome, hinner⟩ := h.maybe
    · rfl
    · have hread : readPart (readData types child) ⟨(Value.static inner).toDoc key, place⟩ =
          .ok (.static inner) :=
        readPart_toDoc (P := child.Reads named) hinner (fun _ => Ty.Reads.has_special)
          fun data heq hdata => ih hdata (by cases heq; exact htypes)
      have hnull : ¬ (inner.toDoc key).isNull = true :=
        fun hnull => hsome (hinner.fromNull hnull)
      rw [readData, Data.toDoc, hread]
      exact if_neg hnull
  | int | float => cases data <;> first | exact h.elim | rfl
  | errorUnion | aggregate | unrecognised => cases data <;> first | exact h.elim | rfl

/-- A value in the range of the type of an instruction is read back. -/
theorem readValue_toDoc {type : Option Ty} {value : Value} (h : value.ReadsAt type)
    (htypes : ∀ t ∈ value.types, ∀ place, types.lookup ⟨.text (key t), place⟩ = .ok t) :
    readValue types type (some ⟨value.toDoc key, place⟩) = .ok value := by
  unfold readValue
  cases value with
  | runtime => exact readState_bare (w := "runtime") rfl rfl
  | undef => exact readState_bare (w := "undef") rfl rfl
  | zeroes => exact readState_bare (w := "zeroes") rfl rfl
  | static data =>
    obtain ⟨t, rfl, h⟩ := h
    exact readState_static h.has_special (readData_toDoc t h htypes)
  | unrecognised => exact h.elim

end ReadingBack

end BlockIr
