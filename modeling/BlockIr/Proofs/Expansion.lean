import BlockIr.Description.Constant
import BlockIr.Dump.Constant
import BlockIr.Proofs.Except

/-!
# Declared names at any depth

A declared name stands for another type, on its own or inside pointers, lists, optionals and error
unions, and what it stands for may be a declared name again. Replacing every one of them leaves
the other types in a type with the names they have.

A payload is read at a type as if none of its parts were a declared name, and is written as if
none were. One word of a message tells the difference: a runtime value is reported at the name of
the type it stands at, and that name may be a declared one.

* `Ty.expand`: a type without declared names at any depth.
* `readData_expand`, `readValue_expand`: reading at the expanded type.
* `Ty.dataText_expand`, `Ty.valueText_expand`: writing at the expanded type.
* `Ty.expand_transparent`: declared names make no difference.
-/

namespace BlockIr

namespace Ty

/-- The type with every declared name in it replaced by what it stands for. -/
def expand : Ty → Ty
  | declared _ canonical => canonical.expand
  | pointer name child isConst => pointer name child.expand isConst
  | array name child length => array name child.expand length
  | maybe name child => maybe name child.expand
  | errorUnion name child => errorUnion name child.expand
  | t => t

/-- No declared name occurs in the type, at any depth. -/
def IsExpanded : Ty → Prop
  | declared .. => False
  | pointer _ child _ | array _ child _ | maybe _ child | errorUnion _ child => child.IsExpanded
  | _ => True

theorem isExpanded_expand (t : Ty) : t.expand.IsExpanded := by
  induction t with
  | declared _ canonical ih => exact ih
  | pointer _ child _ ih | array _ child _ ih | maybe _ child ih | errorUnion _ child ih =>
    exact ih
  | _ => exact trivial

end Ty

/-! ## Reading -/

section Reading

variable (types : TypeTable)

/-- The parts of a payload are read at the expanded types of the parts. -/
theorem readData_expand (t : Ty) (node : Node) :
    readData types t.expand node = readData types t node := by
  induction t generalizing node with
  | declared _ canonical ih => exact ih node
  | pointer name child isConst ih =>
    have hchild : readData types child.expand = readData types child := funext ih
    simp only [Ty.expand, readData, hchild]
  | array name child length ih =>
    have hchild : readData types child.expand = readData types child := funext ih
    simp only [Ty.expand, readData, hchild]
  | maybe name child ih =>
    have hchild : readData types child.expand = readData types child := funext ih
    simp only [Ty.expand, readData, hchild]
  | _ => rfl

theorem readValue_expand (t : Ty) (node : Option Node) :
    readValue types (some t.expand) node = readValue types (some t) node := by
  have hpayload : readData types t.expand = readData types t := funext (readData_expand types t)
  cases node with
  | none => rfl
  | some node => simp only [readValue, hpayload]

end Reading

/-! ## Writing -/

/-- Stopped by the same, but for the name of the type at which a runtime value stands. -/
inductive DumpStop.SameFault : DumpStop → DumpStop → Prop where
  | refl (p : DumpStop) : SameFault p p
  | runtimeValue (typeName typeName' : String) :
    SameFault (.problem (.runtimeValue typeName)) (.problem (.runtimeValue typeName'))

theorem DumpStop.SameFault.code? {p q : DumpStop} (h : p.SameFault q) : p.code? = q.code? := by
  cases h <;> rfl

/-- Two runs that give the same, or are stopped by the same. -/
inductive SameOutcome {α : Type} : Except DumpStop α → Except DumpStop α → Prop where
  | ok (a : α) : SameOutcome (.ok a) (.ok a)
  | error {p q : DumpStop} : p.SameFault q → SameOutcome (.error p) (.error q)

namespace SameOutcome

variable {α β : Type} {x y : Except DumpStop α}

theorem refl (x : Except DumpStop α) : SameOutcome x x := by
  cases x with
  | ok a => exact .ok a
  | error p => exact .error (.refl p)

theorem bind {f g : α → Except DumpStop β} (h : SameOutcome x y)
    (hnext : ∀ a, SameOutcome (f a) (g a)) : SameOutcome (x >>= f) (y >>= g) := by
  cases h with
  | ok a => exact hnext a
  | error hp => exact .error hp

theorem mapM {f g : α → Except DumpStop β} (xs : List α)
    (h : ∀ x ∈ xs, SameOutcome (f x) (g x)) : SameOutcome (xs.mapM f) (xs.mapM g) := by
  induction xs with
  | nil => exact .ok []
  | cons x xs ih =>
    rw [List.forall_mem_cons] at h
    rw [List.mapM_cons, List.mapM_cons]
    refine h.1.bind fun _ => ?_
    exact (ih h.2).bind fun _ => .refl _

/-- The same text, or a problem with the same code. -/
theorem mapError_code (h : SameOutcome x y) :
    x.mapError DumpStop.code? = y.mapError DumpStop.code? := by
  cases h with
  | ok a => rfl
  | error hp => exact congrArg Except.error hp.code?

end SameOutcome

section Writing

variable {receiver : InstrId → Except DumpStop String}

/-- The name of the type a value is read at is only shown for a runtime value. -/
theorem Value.textWith_sameOutcome {typeName typeName' : String}
    {static static' : Data → Except DumpStop String} (value : Value)
    (h : ∀ data, SameOutcome (static data) (static' data)) :
    SameOutcome (value.textWith typeName static) (value.textWith typeName' static') := by
  cases value with
  | static data => exact h data
  | runtime => exact .error (.runtimeValue typeName typeName')
  | undef | zeroes | unrecognised => exact .refl _

namespace Ty

/-- The parts of data are written at the expanded types of the parts. -/
theorem dataText_expand (t : Ty) (data : Data) :
    SameOutcome (t.expand.dataText receiver data) (t.dataText receiver data) := by
  induction t generalizing data with
  | declared _ canonical ih => exact ih data
  | pointer name child isConst ih =>
    cases data with
    | pointer pointee => exact (pointee.textWith_sameOutcome ih).bind fun _ => .refl _
    | _ => exact .refl _
  | array name child length ih =>
    cases data with
    | array elements =>
      have helements : SameOutcome
          (elements.mapM (Value.textWith child.expand.name (child.expand.dataText receiver)))
          (elements.mapM (Value.textWith child.name (child.dataText receiver))) :=
        .mapM elements fun value _ => value.textWith_sameOutcome ih
      simp only [expand, dataText]
      split
      · exact helements.bind fun _ => .refl _
      · exact .refl _
    | _ => exact .refl _
  | maybe name child ih =>
    cases data with
    | present inner => exact inner.textWith_sameOutcome ih
    | _ => exact .refl _
  | _ => exact .refl _

theorem valueText_expand (t : Ty) (value : Value) :
    SameOutcome (t.expand.valueText receiver value) (t.valueText receiver value) :=
  value.textWith_sameOutcome t.dataText_expand

/-- A type can be expanded without any difference for what is read at it: the same value, or the
same problem at the same place. Nor is there one for what is written: the same text, or a problem
of the same code, which is the same problem if it is not about a runtime value. -/
theorem expand_transparent (types : TypeTable) (e : Executable) (t : Ty) :
    t.expand.IsExpanded ∧
      (∀ node : Option Node,
        readValue types (some t.expand) node = readValue types (some t) node) ∧
      ∀ value : Value,
        (t.expand.valueText e.operand value).mapError DumpStop.code? =
          (t.valueText e.operand value).mapError DumpStop.code? ∧
        SameOutcome (t.expand.valueText e.operand value) (t.valueText e.operand value) := by
  refine ⟨t.isExpanded_expand, readValue_expand types t, fun value => ?_⟩
  have hsame : SameOutcome (t.expand.valueText e.operand value) (t.valueText e.operand value) :=
    t.valueText_expand value
  exact ⟨hsame.mapError_code, hsame⟩

/-- A list of pointers to numbers, where the list, the pointers and the numbers have names of
their own. -/
def renamedRow : Ty :=
  .declared "Row" (.arrayOf
    (.declared "Cell" (.pointerTo (.declared "Byte" (.ofInt 8 false)) false)) 1)

/-- The list keeps the name of its elements, and a runtime value behind the pointer is reported at
the name of the number. -/
example :
    renamedRow.expand = .array "[1]Cell" (.pointer "&Byte" (.ofInt 8 false) false) 1 ∧
      renamedRow.valueText Executable.empty.operand
          (.static (.array [.static (.pointer .runtime)])) =
        .error (.problem (.runtimeValue "Byte")) ∧
      renamedRow.expand.valueText Executable.empty.operand
          (.static (.array [.static (.pointer .runtime)])) =
        .error (.problem (.runtimeValue "u8")) :=
  ⟨by decide, rfl, rfl⟩

end Ty

end Writing

end BlockIr
