import BlockIr.Proofs.Constant

/-!
# What keeps a constant from being shown

A value is shown at a type if and only if it fits: data of the kind that the type reads, parts
that fit in turn, and receivers that have a text. Whatever does not fit is a violation. A text is
put together from left to right, and a part before what follows it, so the problem that is
reported is the first violation, depth first.

* `FailsFirst`: a run that fails with the first of some problems, or succeeds without any.
* `Ty.Shows`: the data that a type shows.
* `Ty.violations`: what in the data does not fit, depth first.
* `Ty.valueText_exact`: which values have a text, and why the others have none.
-/

namespace BlockIr

/-! ## The first of several problems -/

/-- A run fails with the first of the problems, and succeeds if there is none. -/
inductive FailsFirst {ε α : Type} : Except ε α → List ε → Prop where
  | ok (a : α) : FailsFirst (.ok a) []
  | error (p : ε) (rest : List ε) : FailsFirst (.error p) (p :: rest)

namespace FailsFirst

variable {ε α β : Type} {x : Except ε α} {problems rest : List ε}

theorem eq_error_iff (h : FailsFirst x problems) (p : ε) :
    x = .error p ↔ problems.head? = some p := by
  cases h with
  | ok a => exact ⟨nofun, nofun⟩
  | error q rest => rw [List.head?_cons, Except.error.injEq, Option.some.injEq]

theorem exists_ok_iff (h : FailsFirst x problems) : (∃ a, x = .ok a) ↔ problems = [] := by
  cases h with
  | ok a => exact ⟨fun _ => rfl, fun _ => ⟨a, rfl⟩⟩
  | error q rest => exact ⟨nofun, nofun⟩

/-- The problems of a step come before those of what follows it. -/
theorem bind {f : α → Except ε β} (h : FailsFirst x problems)
    (hf : ∀ a, x = .ok a → FailsFirst (f a) rest) : FailsFirst (x >>= f) (problems ++ rest) := by
  cases h with
  | ok a => exact hf a rfl
  | error p rest => exact .error p _

theorem map {f : α → Except ε β} (h : FailsFirst x problems) (hf : ∀ a, ∃ b, f a = .ok b) :
    FailsFirst (x >>= f) problems := by
  cases h with
  | ok a =>
    obtain ⟨b, hb⟩ := hf a
    rw [ok_bind, hb]
    exact .ok b
  | error p rest => exact .error p rest

/-- The problems of a run over a list are those of its items, one item after the other. -/
theorem mapM {f : α → Except ε β} {problemsOf : α → List ε} {xs : List α}
    (h : ∀ x ∈ xs, FailsFirst (f x) (problemsOf x)) :
    FailsFirst (xs.mapM f) (xs.flatMap problemsOf) := by
  induction xs with
  | nil => exact .ok []
  | cons x xs ih =>
    rw [List.forall_mem_cons] at h
    rw [List.mapM_cons, List.flatMap_cons]
    exact h.1.bind fun y _ => (ih h.2).map fun ys => ⟨y :: ys, rfl⟩

end FailsFirst

/-! ## Values that fit -/

/-- Data that a shape shows, where receivers have to be `shown`. -/
def PlainKind.Shows (shown : InstrId → Prop) : PlainKind → Data → Prop
  | .boundFn, .boundFn _ receiver => shown receiver
  | kind, data => kind.Fits data

/-- Data that a type shows, where receivers have to be `shown`. Declared names are looked
through. -/
def Ty.Shows (shown : InstrId → Prop) : Ty → Data → Prop
  | .declared _ canonical, data => canonical.Shows shown data
  | .plain kind _, data => kind.Shows shown data
  | .int .., .int _ | .float .., .float _ | .maybe .., .absent => True
  | .pointer _ child _, .pointer pointee => pointee.KnownBy (child.Shows shown)
  | .array _ child length, .array elements =>
    (elements.length : Int) = length ∧ ∀ value ∈ elements, value.KnownBy (child.Shows shown)
  | .maybe _ child, .present inner => inner.KnownBy (child.Shows shown)
  | .errorUnion .., _ | .aggregate .., _ => True
  | _, _ => False

/-! ## Violations -/

/-- The problem of a run that fails, if it does. -/
def problemOf {ε α : Type} : Except ε α → List ε
  | .ok _ => []
  | .error p => [p]

theorem failsFirst_problemOf {ε α : Type} (x : Except ε α) : FailsFirst x (problemOf x) := by
  cases x with
  | ok a => exact .ok a
  | error p => exact .error p []

/-- What keeps a value from being shown, where `inData` tells what keeps its data from it. -/
def Value.violations (typeName : String) (inData : Data → List DumpStop) :
    Value → List DumpStop
  | .runtime => [.problem (.runtimeValue typeName)]
  | .undef | .zeroes => []
  | .static data => inData data
  | .unrecognised _ => [.problem .unknownState]

/-- The kind of data that a shape reads, if it reads any. -/
def PlainKind.dataWord? : PlainKind → Option String
  | .intLiteral => some "int"
  | .floatLiteral => some "float"
  | .bool => some "bool"
  | .metaType => some "type"
  | .fn => some "fn"
  | .block => some "scope"
  | .namespacePath => some "namespace"
  | .boundFn => some "bound_fn"
  | .invalid | .var | .void | .unreachable | .nullLiteral | .undefinedLiteral | .pureError => none

/-- What keeps data from being shown at a shape that has only a name. -/
def PlainKind.violations (receiver : InstrId → Except DumpStop String) (typeName : String) :
    PlainKind → Data → List DumpStop
  | .intLiteral, .int _ | .floatLiteral, .float _ | .bool, .bool _ | .metaType, .type _
  | .fn, .fn _ | .block, .scope _ _ | .namespacePath, .namespacePath _ => []
  | .boundFn, .boundFn _ id => problemOf (receiver id)
  | kind, data =>
    kind.dataWord?.toList.map fun word => .problem (.mismatch word typeName data.kindWord)

/-- What keeps data from being shown at a type, depth first and from left to right. -/
def Ty.violations (receiver : InstrId → Except DumpStop String) : Ty → Data → List DumpStop
  | .declared _ canonical, data => canonical.violations receiver data
  | .plain kind name, data => kind.violations receiver name data
  | .int .., .int _ | .float .., .float _ | .maybe .., .absent => []
  | .int name _ _, data => [.problem (.mismatch "int" name data.kindWord)]
  | .float name _, data => [.problem (.mismatch "float" name data.kindWord)]
  | .pointer _ child _, .pointer pointee =>
    pointee.violations child.name (child.violations receiver)
  | .pointer name _ _, data => [.problem (.mismatch "pointer" name data.kindWord)]
  | .array name child length, .array elements =>
    (if (elements.length : Int) = length then []
      else [.problem (.arrayLength name elements.length)]) ++
      elements.flatMap (Value.violations child.name (child.violations receiver))
  | .array name _ _, data => [.problem (.mismatch "array" name data.kindWord)]
  | .maybe _ child, .present inner => inner.violations child.name (child.violations receiver)
  | .maybe name _, data => [.problem (.mismatch "maybe" name data.kindWord)]
  | .errorUnion .., _ | .aggregate .., _ => []
  | .unrecognised kind _, _ => [.problem (.unknownType kind)]

section Violations

variable {receiver : InstrId → Except DumpStop String}

theorem Value.textWith_failsFirst {typeName : String} {static : Data → Except DumpStop String}
    {inData : Data → List DumpStop} (value : Value)
    (h : ∀ data, value = .static data → FailsFirst (static data) (inData data)) :
    FailsFirst (value.textWith typeName static) (value.violations typeName inData) := by
  cases value with
  | static data => exact h data rfl
  | runtime => exact .error _ []
  | unrecognised state => exact .error _ []
  | undef => exact .ok _
  | zeroes => exact .ok _

theorem PlainKind.dataText_failsFirst (kind : PlainKind) (name : String) (data : Data) :
    FailsFirst (kind.dataText receiver name data) (kind.violations receiver name data) := by
  cases kind with
  | boundFn =>
    cases data with
    | boundFn symbol id => exact (failsFirst_problemOf (receiver id)).map fun _ => ⟨_, rfl⟩
    | _ => exact .error _ []
  | intLiteral | floatLiteral | bool | metaType | fn | block | namespacePath =>
    cases data <;> first | exact .ok _ | exact .error _ []
  | _ => exact .ok _

/-- The text of data fails with the first violation in it. -/
theorem Ty.dataText_failsFirst (t : Ty) (data : Data) :
    FailsFirst (t.dataText receiver data) (t.violations receiver data) := by
  induction t generalizing data with
  | declared _ canonical ih => exact ih data
  | plain kind name => exact kind.dataText_failsFirst name data
  | int | float => cases data <;> first | exact .ok _ | exact .error _ []
  | pointer name child isConst ih =>
    cases data with
    | pointer pointee =>
      have hpointee : FailsFirst (pointee.textWith child.name (child.dataText receiver))
          (pointee.violations child.name (child.violations receiver)) :=
        pointee.textWith_failsFirst fun data _ => ih data
      exact hpointee.map fun _ => ⟨_, rfl⟩
    | _ => exact .error _ []
  | array name child length ih =>
    cases data with
    | array elements =>
      have helements : FailsFirst
          (elements.mapM (Value.textWith child.name (child.dataText receiver)))
          (elements.flatMap (Value.violations child.name (child.violations receiver))) :=
        .mapM fun value _ => value.textWith_failsFirst fun data _ => ih data
      simp only [Ty.dataText, Ty.violations]
      split
      · exact helements.map fun _ => ⟨_, rfl⟩
      · exact .error _ _
    | _ => exact .error _ []
  | maybe name child ih =>
    cases data with
    | absent => exact .ok _
    | present inner => exact inner.textWith_failsFirst fun data _ => ih data
    | _ => exact .error _ []
  | errorUnion | aggregate => exact .ok _
  | unrecognised => exact .error _ []

end Violations

/-! ## Values without a violation -/

section Fits

variable {receiver : InstrId → Except DumpStop String}

theorem problemOf_eq_nil_iff {ε α : Type} {x : Except ε α} :
    problemOf x = [] ↔ ∃ a, x = .ok a :=
  (failsFirst_problemOf x).exists_ok_iff.symm

theorem Value.violations_eq_nil_iff {typeName : String} {inData : Data → List DumpStop}
    {fits : Data → Prop} (value : Value) (h : ∀ data, value = .static data →
      (inData data = [] ↔ fits data)) :
    value.violations typeName inData = [] ↔ value.KnownBy fits := by
  cases value with
  | static data => exact h data rfl
  | runtime => exact ⟨nofun, False.elim⟩
  | unrecognised state => exact ⟨nofun, False.elim⟩
  | undef => exact ⟨fun _ => trivial, fun _ => rfl⟩
  | zeroes => exact ⟨fun _ => trivial, fun _ => rfl⟩

theorem PlainKind.violations_eq_nil_iff (kind : PlainKind) (name : String) (data : Data) :
    kind.violations receiver name data = [] ↔
      kind.Shows (fun id => ∃ text, receiver id = .ok text) data := by
  cases kind with
  | boundFn =>
    cases data with
    | boundFn symbol id => exact problemOf_eq_nil_iff
    | _ => exact ⟨nofun, False.elim⟩
  | intLiteral | floatLiteral | bool | metaType | fn | block | namespacePath =>
    cases data <;> first
      | exact ⟨nofun, False.elim⟩
      | exact ⟨fun _ => trivial, fun _ => rfl⟩
  | _ => exact ⟨fun _ => trivial, fun _ => rfl⟩

/-- Data fits a type if and only if nothing in it violates the type. -/
theorem Ty.violations_eq_nil_iff (t : Ty) (data : Data) :
    t.violations receiver data = [] ↔
      t.Shows (fun id => ∃ text, receiver id = .ok text) data := by
  induction t generalizing data with
  | declared _ canonical ih => exact ih data
  | plain kind name => exact kind.violations_eq_nil_iff name data
  | int | float =>
    cases data <;> first
      | exact ⟨nofun, False.elim⟩
      | exact ⟨fun _ => trivial, fun _ => rfl⟩
  | pointer name child isConst ih =>
    cases data with
    | pointer pointee => exact pointee.violations_eq_nil_iff fun data _ => ih data
    | _ => exact ⟨nofun, False.elim⟩
  | array name child length ih =>
    cases data with
    | array elements =>
      have helements : elements.flatMap
          (Value.violations child.name (child.violations receiver)) = [] ↔
            ∀ value ∈ elements, value.KnownBy
              (child.Shows fun id => ∃ text, receiver id = .ok text) := by
        rw [List.flatMap_eq_nil_iff]
        exact forall₂_congr fun value _ => value.violations_eq_nil_iff fun data _ => ih data
      have hlength : (if (elements.length : Int) = length then []
          else [DumpStop.problem (.arrayLength name elements.length)]) = [] ↔
            (elements.length : Int) = length := by
        split <;> simp [*]
      simp only [Ty.violations, Ty.Shows, List.append_eq_nil_iff, hlength, helements]
    | _ => exact ⟨nofun, False.elim⟩
  | maybe name child ih =>
    cases data with
    | absent => exact ⟨fun _ => trivial, fun _ => rfl⟩
    | present inner => exact inner.violations_eq_nil_iff fun data _ => ih data
    | _ => exact ⟨nofun, False.elim⟩
  | errorUnion | aggregate => exact ⟨fun _ => trivial, fun _ => rfl⟩
  | unrecognised => exact ⟨nofun, False.elim⟩

end Fits

/-- A value has a text at a type if and only if it fits, where the receivers of bound functions
have to have a text as operands. If it has none, the problem is the first violation in it. -/
theorem Ty.valueText_exact (e : Executable) (t : Ty) (value : Value) :
    ((∃ text, t.valueText e.operand value = .ok text) ↔
      value.KnownBy (t.Shows fun id => ∃ text, e.operand id = .ok text)) ∧
    ∀ p, t.valueText e.operand value = .error p ↔
      (value.violations t.name (t.violations e.operand)).head? = some p := by
  have hfirst : FailsFirst (t.valueText e.operand value)
      (value.violations t.name (t.violations e.operand)) :=
    value.textWith_failsFirst fun data _ => t.dataText_failsFirst data
  refine ⟨?_, hfirst.eq_error_iff⟩
  rw [hfirst.exists_ok_iff]
  exact value.violations_eq_nil_iff fun data _ => t.violations_eq_nil_iff data

/-- A list of two pointers to numbers. -/
def pointerPair : Ty := .arrayOf (.pointerTo (.ofInt 8 false) false) 2

/-- The first of three elements is a pointer to data of another kind, the last one a runtime
value. -/
def misfitElements : List Value :=
  [.static (.pointer (.static (.bool true))), .undef, .runtime]

/-- The length is at fault before any element is, and of the elements the first one, at the type
behind the pointer. -/
theorem Ty.valueText_pointerPair :
    pointerPair.valueText Executable.empty.operand (.static (.array misfitElements)) =
        .error (.problem (.arrayLength "[2]&u8" 3)) ∧
      pointerPair.valueText Executable.empty.operand
          (.static (.array (misfitElements.eraseIdx 1))) =
        .error (.problem (.mismatch "int" "u8" "bool")) ∧
      ∃ text, pointerPair.valueText Executable.empty.operand
          (.static (.array [.static (.pointer .zeroes), .undef])) = .ok text := by
  refine ⟨?_, ?_, ?_⟩
  · rw [(pointerPair.valueText_exact .empty _).2]
    rfl
  · rw [(pointerPair.valueText_exact .empty _).2]
    rfl
  · rw [(pointerPair.valueText_exact .empty _).1]
    refine ⟨rfl, ?_⟩
    rintro value (_ | ⟨_, _ | ⟨_, ⟨⟩⟩⟩) <;> exact trivial

end BlockIr
