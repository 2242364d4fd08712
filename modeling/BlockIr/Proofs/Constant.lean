import BlockIr.Dump.Constant
import BlockIr.Proofs.Except

/-!
# Which constants have a text

The text of a constant can fail for two reasons only. Either a part of it does not fit the type
it is read at, or the receiver of a bound function inside it has no text. The receivers that
matter are among the instructions the constant names.

* `Ty.dataText_congr`: the text depends on the texts of the instructions the data names.
* `Ty.dataText_error`: a failure comes from one of these instructions, or the data does not fit.
* `Instruction.constantText_error`: the same for the value of an instruction.
-/

namespace BlockIr

/-- A value with a text, where its data has to pass `data`. -/
def Value.KnownBy (data : Data → Prop) : Value → Prop
  | .undef | .zeroes => True
  | .static d => data d
  | .runtime | .unrecognised _ => False

/-- Data of the kind a shape reads. Shapes of a single value read nothing. -/
def PlainKind.Fits : PlainKind → Data → Prop
  | .intLiteral, .int _ | .floatLiteral, .float _ | .bool, .bool _ | .metaType, .type _
  | .fn, .fn _ | .block, .scope _ _ | .namespacePath, .namespacePath _
  | .boundFn, .boundFn _ _ => True
  | .intLiteral, _ | .floatLiteral, _ | .bool, _ | .metaType, _ | .fn, _ | .block, _
  | .namespacePath, _ | .boundFn, _ => False
  | .invalid, _ | .var, _ | .void, _ | .unreachable, _ | .nullLiteral, _
  | .undefinedLiteral, _ | .pureError, _ => True

/-- Data that a type can show. Declared names are looked through. -/
def Ty.Fits : Ty → Data → Prop
  | .declared _ canonical, data => canonical.Fits data
  | .plain kind _, data => kind.Fits data
  | .int .., .int _ | .float .., .float _ => True
  | .pointer _ child _, .pointer pointee => pointee.KnownBy child.Fits
  | .array _ child length, .array elements =>
    (elements.length : Int) = length ∧ ∀ value ∈ elements, value.KnownBy child.Fits
  | .maybe .., .absent => True
  | .maybe _ child, .present inner => inner.KnownBy child.Fits
  | .errorUnion .., _ | .aggregate .., _ => True
  | _, _ => False

/-- What stops a constant whose parts do not fit their types. -/
def DumpStop.OfConstant : DumpStop → Prop
  | .problem (.unknownType _) | .problem (.runtimeValue _) | .problem (.mismatch ..)
  | .problem (.arrayLength ..) | .problem .unknownState => True
  | _ => False

/-- The value of an instruction is at run time, or fits the type of the instruction. -/
def Instruction.ValueFits (i : Instruction) : Prop :=
  match i.value with
  | .runtime | .undef | .zeroes => True
  | .static data => ∃ t, i.type = some t ∧ t.Fits data
  | .unrecognised _ => False

theorem Value.mem_referencesOfAll {r : InstrId} {values : List Value} :
    r ∈ Value.referencesOfAll values ↔ ∃ value ∈ values, r ∈ value.references := by
  rw [Value.referencesOfAll_eq_flatMap, List.mem_flatMap]

/-! ## The instructions that matter -/

section Congruence

variable {f g : InstrId → Except DumpStop String}

theorem Value.textWith_congr {typeName : String} {f g : Data → Except DumpStop String}
    {value : Value} (h : ∀ data, value = .static data → f data = g data) :
    value.textWith typeName f = value.textWith typeName g := by
  cases value with
  | static data => exact h data rfl
  | _ => rfl

theorem PlainKind.dataText_congr {typeName : String} (kind : PlainKind) {data : Data}
    (h : ∀ r ∈ data.references, f r = g r) :
    kind.dataText f typeName data = kind.dataText g typeName data := by
  cases kind with
  | boundFn =>
    cases data with
    | boundFn symbol receiver =>
      have hr : f receiver = g receiver := h receiver (by simp [Data.references])
      simp only [PlainKind.dataText, hr]
    | _ => rfl
  | _ => rfl

/-- The text of data depends on the texts of the instructions it names only. -/
theorem Ty.dataText_congr (t : Ty) {data : Data} (h : ∀ r ∈ data.references, f r = g r) :
    t.dataText f data = t.dataText g data := by
  induction t generalizing data with
  | declared _ canonical ih => exact ih h
  | plain kind name => exact kind.dataText_congr h
  | pointer name child isConst ih =>
    cases data with
    | pointer pointee =>
      have hp : pointee.textWith child.name (child.dataText f) =
          pointee.textWith child.name (child.dataText g) := by
        refine Value.textWith_congr fun inner hinner => ih fun r hr => h r ?_
        rw [hinner]
        exact hr
      simp only [Ty.dataText, hp]
    | _ => rfl
  | array name child length ih =>
    cases data with
    | array elements =>
      have he : elements.mapM (Value.textWith child.name (child.dataText f)) =
          elements.mapM (Value.textWith child.name (child.dataText g)) := by
        apply mapM_congr
        intro value hvalue
        apply Value.textWith_congr
        intro inner hinner
        refine ih fun r hr => h r ?_
        rw [Data.references, Value.mem_referencesOfAll]
        exact ⟨value, hvalue, by rw [hinner]; exact hr⟩
      simp only [Ty.dataText, he]
    | _ => rfl
  | maybe name child ih =>
    cases data with
    | present inner =>
      refine Value.textWith_congr fun data hdata => ih fun r hr => h r ?_
      rw [hdata]
      exact hr
    | _ => rfl
  | _ => rfl

theorem Instruction.constantText_congr (i : Instruction)
    (h : ∀ r ∈ i.references, f r = g r) : i.constantText f = i.constantText g := by
  unfold Instruction.constantText
  cases hv : i.value with
  | static data =>
    cases i.type with
    | none => rfl
    | some t =>
      refine t.dataText_congr fun r hr => h r ?_
      rw [Instruction.references, hv]
      exact hr
  | _ => rfl

end Congruence

/-! ## Failures -/

section Failures

variable {receiver : InstrId → Except DumpStop String} {p : DumpStop}

/-- A value has no text because its data has none, or because it is no known value. -/
theorem Value.textWith_error {typeName : String} {static : Data → Except DumpStop String}
    {value : Value} (h : value.textWith typeName static = .error p) :
    (∃ data, value = .static data ∧ static data = .error p) ∨
      (∀ fits, ¬ value.KnownBy fits) ∧ p.OfConstant := by
  cases value with
  | static data => exact .inl ⟨data, rfl, h⟩
  | runtime =>
    cases h
    exact .inr ⟨fun _ => id, trivial⟩
  | unrecognised state =>
    cases h
    exact .inr ⟨fun _ => id, trivial⟩
  | undef => cases h
  | zeroes => cases h

theorem PlainKind.dataText_error {typeName : String} (kind : PlainKind) {data : Data}
    (h : kind.dataText receiver typeName data = .error p) :
    (∃ r ∈ data.references, receiver r = .error p) ∨ ¬ kind.Fits data ∧ p.OfConstant := by
  cases kind with
  | boundFn =>
    cases data with
    | boundFn symbol r =>
      refine .inl ⟨r, by simp [Data.references], ?_⟩
      rcases bind_eq_error.mp h with h | ⟨_, _, h⟩
      · exact h
      · cases h
    | _ =>
      cases h
      exact .inr ⟨id, trivial⟩
  | intLiteral | floatLiteral | bool | metaType | fn | block | namespacePath =>
    cases data <;> cases h
    all_goals exact .inr ⟨id, trivial⟩
  | _ => cases h

/-- A failure comes from an instruction the data names, or the data does not fit the type. -/
theorem Ty.dataText_error (t : Ty) {data : Data} (h : t.dataText receiver data = .error p) :
    (∃ r ∈ data.references, receiver r = .error p) ∨ ¬ t.Fits data ∧ p.OfConstant := by
  induction t generalizing data with
  | declared _ canonical ih => exact ih h
  | plain kind name => exact kind.dataText_error h
  | int | float =>
    cases data <;> cases h
    all_goals exact .inr ⟨id, trivial⟩
  | pointer name child isConst ih =>
    cases data with
    | pointer pointee =>
      rcases bind_eq_error.mp h with h | ⟨_, _, h⟩
      · rcases Value.textWith_error h with ⟨inner, rfl, h⟩ | ⟨hn, hp⟩
        · exact ih h
        · exact .inr ⟨hn _, hp⟩
      · cases h
    | _ =>
      cases h
      exact .inr ⟨id, trivial⟩
  | array name child length ih =>
    cases data with
    | array elements =>
      simp only [Ty.dataText] at h
      split at h
      · rcases bind_eq_error.mp h with h | ⟨_, _, h⟩
        · obtain ⟨value, hmem, h⟩ := mapM_eq_error h
          rcases Value.textWith_error h with ⟨inner, rfl, h⟩ | ⟨hn, hp⟩
          · rcases ih h with ⟨r, hr, h⟩ | ⟨hn, hp⟩
            · exact .inl ⟨r, Value.mem_referencesOfAll.mpr ⟨_, hmem, hr⟩, h⟩
            · exact .inr ⟨fun hfits => hn (hfits.2 _ hmem), hp⟩
          · exact .inr ⟨fun hfits => hn _ (hfits.2 _ hmem), hp⟩
        · cases h
      · rename_i hlength
        cases h
        exact .inr ⟨fun hfits => hlength hfits.1, trivial⟩
    | _ =>
      cases h
      exact .inr ⟨id, trivial⟩
  | maybe name child ih =>
    cases data with
    | absent => cases h
    | present inner =>
      rcases Value.textWith_error h with ⟨data, rfl, h⟩ | ⟨hn, hp⟩
      · exact ih h
      · exact .inr ⟨hn _, hp⟩
    | _ =>
      cases h
      exact .inr ⟨id, trivial⟩
  | errorUnion => cases h
  | aggregate => cases h
  | unrecognised =>
    cases h
    exact .inr ⟨id, trivial⟩

/-- A constant has no text because of an instruction it names, because it is a runtime value,
or because it does not fit its type. -/
theorem Instruction.constantText_error (i : Instruction)
    (h : i.constantText receiver = .error p) :
    (∃ r ∈ i.references, receiver r = .error p) ∨
      (i.value = .runtime ∧ p = .problem (.runtimeConstant i.id)) ∨
      ¬ i.ValueFits ∧ (p = .problem (.untypedConstant i.id) ∨ p.OfConstant) := by
  unfold Instruction.constantText at h
  unfold Instruction.references Instruction.ValueFits
  cases hv : i.value with
  | runtime =>
    rw [hv] at h
    cases h
    exact .inr (.inl ⟨rfl, rfl⟩)
  | undef =>
    rw [hv] at h
    cases h
  | zeroes =>
    rw [hv] at h
    cases h
  | static data =>
    rw [hv] at h
    cases ht : i.type with
    | none =>
      rw [ht] at h
      cases h
      refine .inr (.inr ⟨?_, .inl rfl⟩)
      rintro ⟨_, hnone, _⟩
      cases hnone
    | some t =>
      rw [ht] at h
      rcases t.dataText_error h with h | ⟨hn, hp⟩
      · exact .inl h
      · refine .inr (.inr ⟨fun ⟨t', ht', hfits⟩ => ?_, .inr hp⟩)
        cases ht'
        exact hn hfits
  | unrecognised state =>
    rw [hv] at h
    refine .inr (.inr ⟨fun hfits => hfits, ?_⟩)
    cases ht : i.type with
    | none =>
      rw [ht] at h
      cases h
      exact .inl rfl
    | some t =>
      rw [ht] at h
      cases h
      exact .inr trivial

end Failures

end BlockIr
