import BlockIr.Proofs.Constant
import BlockIr.Proofs.Description.TypeTable

/-!
# The constants a description can give

A payload is read at a type, and only some data can come out. Pointers are read through: the
pointee is read from the same node, so it is static. An optional takes a null node for itself,
so its payload is nothing that only a null node gives. All of this data fits its type.

* `readData_reads`: what is read at a type.
* `Ty.Reads.fits`: it can be shown at the type.
* `readValue_reads`: the same for the value of an instruction.
-/

namespace BlockIr

/-- An optional without a payload, or a pointer to one: data that only a null node gives. -/
def Data.FromNull : Data → Prop
  | .absent => True
  | .pointer (.static data) => data.FromNull
  | _ => False

/-- The data that is read at a shape, where types have to be `named`. -/
def PlainKind.Reads (named : Ty → Prop) : PlainKind → Data → Prop
  | .intLiteral, .int _ | .floatLiteral, .float _ | .bool, .bool _ | .fn, .fn _
  | .namespacePath, .namespacePath _ | .pureError, .pureError => True
  | .metaType, .type t => named t
  | .block, .scope line column => IsIndex line ∧ IsIndex column
  | .boundFn, .boundFn _ receiver => IsIndex receiver
  | .invalid, .void | .var, .void | .void, .void | .unreachable, .void | .nullLiteral, .void
  | .undefinedLiteral, .void => True
  | _, _ => False

/-- The data that is read at a type, where types in it have to be `named`. -/
def Ty.Reads (named : Ty → Prop) : Ty → Data → Prop
  | .declared _ canonical, data => canonical.Reads named data
  | .plain kind _, data => kind.Reads named data
  | .int .., .int _ | .float .., .float _ => True
  | .pointer _ child _, .pointer (.static data) => child.Reads named data
  | .array _ child length, .array elements =>
    (elements.length : Int) = length ∧ ∀ value ∈ elements, value.KnownBy (child.Reads named)
  | .maybe .., .absent => True
  | .maybe _ child, .present (.static data) => ¬ data.FromNull ∧ child.Reads named data
  | .errorUnion .., .aggregate | .aggregate .., .aggregate | .unrecognised .., .void => True
  | _, _ => False

namespace Ty.Reads

variable {named : Ty → Prop} {name : String} {child : Ty} {data : Data}

theorem pointer {isConst : Bool} (h : (Ty.pointer name child isConst).Reads named data) :
    ∃ inner, data = .pointer (.static inner) ∧ child.Reads named inner := by
  cases data with
  | pointer pointee =>
    cases pointee with
    | static inner => exact ⟨inner, rfl, h⟩
    | _ => exact h.elim
  | _ => exact h.elim

theorem array {length : Int} (h : (Ty.array name child length).Reads named data) :
    ∃ elements, data = .array elements ∧ (elements.length : Int) = length ∧
      ∀ value ∈ elements, value.KnownBy (child.Reads named) := by
  cases data with
  | array elements => exact ⟨elements, rfl, h⟩
  | _ => exact h.elim

theorem maybe (h : (Ty.maybe name child).Reads named data) :
    data = .absent ∨ ∃ inner, data = .present (.static inner) ∧ ¬ inner.FromNull ∧
      child.Reads named inner := by
  cases data with
  | absent => exact .inl rfl
  | present payload =>
    cases payload with
    | static inner => exact .inr ⟨inner, rfl, h⟩
    | _ => exact h.elim
  | _ => exact h.elim

end Ty.Reads

/-- The values that are read for an instruction of a type. -/
def Value.ReadsAt (type : Option Ty) : Value → Prop
  | .runtime | .undef | .zeroes => True
  | .static data => ∃ t, type = some t ∧ t.Reads Ty.Declarable data
  | .unrecognised _ => False

/-! ## What is read -/

section Reading

variable {node : Node} {payload : Node → Reading Data}

theorem bareState?_eq_some {w : String} {v : Value} (h : bareState? w = some v) :
    v = .runtime ∨ v = .undef ∨ v = .zeroes := by
  unfold bareState? at h
  split at h <;> cases h <;> simp

/-- A state that is spelled out has no payload. -/
theorem readState_eq_ok {value : Value} (h : readState node payload = .ok value) :
    (node.has "special" = true ∧ (value = .runtime ∨ value = .undef ∨ value = .zeroes)) ∨
      node.has "special" = false ∧ ∃ data, payload node = .ok data ∧ value = .static data := by
  unfold readState at h
  split at h
  · rename_i hspecial
    obtain ⟨entry, -, h⟩ := bind_eq_ok.mp h
    obtain ⟨w, -, h⟩ := bind_eq_ok.mp h
    split at h
    · rename_i hw
      cases h
      exact .inl ⟨hspecial, bareState?_eq_some hw⟩
    · cases h
  · rename_i hspecial
    obtain ⟨data, hdata, h⟩ := bind_eq_ok.mp h
    cases h
    exact .inr ⟨Bool.eq_false_iff.mpr hspecial, data, hdata, rfl⟩

theorem readPart_eq_ok {value : Value} (h : readPart payload node = .ok value) :
    readState node payload = .ok value ∧ value ≠ .runtime := by
  obtain ⟨v, hv, h⟩ := bind_eq_ok.mp h
  split at h
  · cases h
  · rename_i hne
    cases h
    exact ⟨hv, hne⟩

/-- A part of a constant is known, and its data comes from its own node. -/
theorem readPart_known {value : Value} (h : readPart payload node = .ok value) :
    value.KnownBy fun data => node.has "special" = false ∧ payload node = .ok data := by
  obtain ⟨h, hne⟩ := readPart_eq_ok h
  rcases readState_eq_ok h with ⟨-, rfl | rfl | rfl⟩ | ⟨hspecial, data, hdata, rfl⟩
  · exact absurd rfl hne
  · trivial
  · trivial
  · exact ⟨hspecial, hdata⟩

/-- Below a node that spells out no state there is data. -/
theorem readPart_static {value : Value} (hspecial : node.has "special" = false)
    (h : readPart payload node = .ok value) :
    ∃ data, payload node = .ok data ∧ value = .static data := by
  rcases readState_eq_ok (readPart_eq_ok h).1 with ⟨htrue, -⟩ | ⟨-, hdata⟩
  · rw [hspecial] at htrue
    cases htrue
  · exact hdata

end Reading

section Types

variable {types : TypeTable}

theorem isNull_of_fromNull (t : Ty) {node : Node} {data : Data}
    (h : readData types t node = .ok data) (hdata : data.FromNull) : node.doc.isNull = true := by
  induction t generalizing data with
  | declared name canonical ih => exact ih h hdata
  | pointer name child isConst ih =>
    obtain ⟨value, hvalue, rfl⟩ := map_eq_ok.mp h
    have hknown := readPart_known hvalue
    cases value with
    | static inner => exact ih hknown.2 hdata
    | _ => exact hdata.elim
  | maybe name child ih =>
    unfold readData at h
    split at h
    · rename_i hnull
      exact hnull
    · obtain ⟨value, -, rfl⟩ := map_eq_ok.mp h
      exact hdata.elim
  | array name child length ih =>
    obtain ⟨items, -, h⟩ := bind_eq_ok.mp h
    split at h
    · obtain ⟨elements, -, h⟩ := bind_eq_ok.mp h
      cases h
      exact hdata.elim
    · cases h
  | int | float =>
    obtain ⟨_, -, rfl⟩ := map_eq_ok.mp h
    exact hdata.elim
  | errorUnion | aggregate | unrecognised =>
    cases h
    exact hdata.elim
  | plain kind name =>
    cases kind with
    | intLiteral | floatLiteral | bool | metaType | fn | namespacePath =>
      obtain ⟨_, -, rfl⟩ := map_eq_ok.mp h
      exact hdata.elim
    | block =>
      obtain ⟨_, -, h⟩ := bind_eq_ok.mp h
      obtain ⟨_, -, h⟩ := bind_eq_ok.mp h
      cases h
      exact hdata.elim
    | boundFn =>
      obtain ⟨_, -, h⟩ := bind_eq_ok.mp h
      obtain ⟨_, -, h⟩ := bind_eq_ok.mp h
      obtain ⟨_, -, h⟩ := bind_eq_ok.mp h
      cases h
      exact hdata.elim
    | _ =>
      cases h
      exact hdata.elim

theorem PlainKind.readData_reads {named : Ty → Prop}
    (hnamed : ∀ node t, types.lookup node = .ok t → named t) (kind : PlainKind) {name : String}
    {node : Node} {data : Data} (h : readData types (.plain kind name) node = .ok data) :
    kind.Reads named data := by
  cases kind with
  | metaType =>
    obtain ⟨type, htype, rfl⟩ := map_eq_ok.mp h
    exact hnamed node type htype
  | block =>
    obtain ⟨line, hline, h⟩ := bind_eq_ok.mp h
    obtain ⟨column, hcolumn, h⟩ := bind_eq_ok.mp h
    cases h
    exact ⟨Node.isIndex_of_id hline, Node.isIndex_of_id hcolumn⟩
  | boundFn =>
    obtain ⟨entry, -, h⟩ := bind_eq_ok.mp h
    obtain ⟨symbol, -, h⟩ := bind_eq_ok.mp h
    obtain ⟨receiver, hreceiver, h⟩ := bind_eq_ok.mp h
    cases h
    exact Node.isIndex_of_id hreceiver
  | intLiteral | floatLiteral | bool | fn | namespacePath =>
    obtain ⟨_, -, rfl⟩ := map_eq_ok.mp h
    exact trivial
  | _ =>
    cases h
    exact trivial

/-- What is read at a type, from a node that spells out no state. -/
theorem readData_reads {named : Ty → Prop}
    (hnamed : ∀ node t, types.lookup node = .ok t → named t) (t : Ty) {node : Node} {data : Data}
    (hspecial : node.has "special" = false) (h : readData types t node = .ok data) :
    t.Reads named data := by
  induction t generalizing node data with
  | declared name canonical ih => exact ih hspecial h
  | plain kind name => exact kind.readData_reads hnamed h
  | int | float =>
    obtain ⟨_, -, rfl⟩ := map_eq_ok.mp h
    exact trivial
  | pointer name child isConst ih =>
    obtain ⟨value, hvalue, rfl⟩ := map_eq_ok.mp h
    obtain ⟨inner, hinner, rfl⟩ := readPart_static hspecial hvalue
    exact ih hspecial hinner
  | array name child length ih =>
    obtain ⟨items, -, h⟩ := bind_eq_ok.mp h
    split at h
    · rename_i hlength
      obtain ⟨elements, helements, h⟩ := bind_eq_ok.mp h
      cases h
      have hpairs := mapM_eq_ok helements
      refine ⟨by rw [← hpairs.length_eq]; exact hlength, ?_⟩
      refine forall_of_mapM_eq_ok helements fun item _ value hvalue => ?_
      have hknown := readPart_known hvalue
      cases value with
      | static inner => exact ih hknown.1 hknown.2
      | _ => exact hknown
    · cases h
  | maybe name child ih =>
    unfold readData at h
    split at h
    · cases h
      exact trivial
    · rename_i hnull
      obtain ⟨value, hvalue, rfl⟩ := map_eq_ok.mp h
      obtain ⟨inner, hinner, rfl⟩ := readPart_static hspecial hvalue
      exact ⟨fun hinner' => hnull (isNull_of_fromNull child hinner hinner'), ih hspecial hinner⟩
  | errorUnion | aggregate | unrecognised =>
    cases h
    exact trivial

/-- What is read for an instruction; without a node it is a runtime value. -/
theorem readValue_reads (ht : types.Sound) {type : Option Ty} {node : Option Node} {value : Value}
    (h : readValue types type node = .ok value) : value.ReadsAt type := by
  cases node with
  | none =>
    cases h
    exact trivial
  | some node =>
    unfold readValue at h
    rcases readState_eq_ok h with ⟨-, rfl | rfl | rfl⟩ | ⟨hspecial, data, hdata, rfl⟩
    · exact trivial
    · exact trivial
    · exact trivial
    · cases type with
      | none => cases hdata
      | some t =>
        have hnamed (node : Node) (u : Ty) (hu : types.lookup node = .ok u) : u.Declarable :=
          TypeTable.declarable_of_lookup ht hu
        exact ⟨t, rfl, readData_reads hnamed t hspecial hdata⟩

end Types

/-! ## What is read can be shown -/

theorem PlainKind.Reads.fits {named : Ty → Prop} {kind : PlainKind} {data : Data}
    (h : kind.Reads named data) : kind.Fits data := by
  cases kind <;> cases data <;> first | exact trivial | exact h

theorem Value.KnownBy.imp {P Q : Data → Prop} (hPQ : ∀ data, P data → Q data) {value : Value}
    (h : value.KnownBy P) : value.KnownBy Q := by
  cases value with
  | static data => exact hPQ data h
  | _ => exact h

theorem Ty.Reads.fits {named : Ty → Prop} {t : Ty} (ht : t.Declarable) {data : Data}
    (h : t.Reads named data) : t.Fits data := by
  induction t generalizing data with
  | declared name canonical ih => exact ih ht h
  | plain kind name => exact PlainKind.Reads.fits h
  | pointer name child isConst ih =>
    obtain ⟨inner, rfl, hinner⟩ := h.pointer
    exact ih ht hinner
  | array name child length ih =>
    obtain ⟨elements, rfl, hlength, hknown⟩ := h.array
    exact ⟨hlength, fun value hvalue => (hknown value hvalue).imp fun _ => ih ht.1⟩
  | maybe name child ih =>
    obtain rfl | ⟨inner, rfl, -, hinner⟩ := h.maybe
    · exact trivial
    · exact ih ht hinner
  | int | float => cases data <;> exact h
  | errorUnion | aggregate => exact trivial
  | unrecognised => exact ht.elim

/-- A value that was read at a declarable type can be shown. -/
theorem Instruction.valueFits_of_readsAt {i : Instruction}
    (ht : ∀ t, i.type = some t → t.Declarable) (h : i.value.ReadsAt i.type) : i.ValueFits := by
  unfold Instruction.ValueFits
  split
  · exact trivial
  · exact trivial
  · exact trivial
  · rename_i data hvalue
    rw [hvalue] at h
    obtain ⟨t, htype, hreads⟩ := h
    exact ⟨t, htype, hreads.fits (ht t htype)⟩
  · rename_i state hvalue
    rw [hvalue] at h
    exact h

end BlockIr
