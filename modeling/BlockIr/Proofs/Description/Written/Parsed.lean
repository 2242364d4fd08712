import BlockIr.Proofs.Description.Written.Constant
import BlockIr.Proofs.Description.Written.Operation
import BlockIr.Proofs.Description.Written.Types

/-!
# Documents as a parse leaves them

A mapping that was parsed has distinct keys, in the order in which they are visited. The keys
that are written for types, constants and operations are words, so no key is moved to the front
as an array index.

* `Doc.Parsed`: what holds for every parsed document.
* `parsed_typeEntries`, `Value.parsed_toDoc`, `Operation.parsed_fields`: the parts of a written
  document.
-/

namespace BlockIr

namespace Doc

/-- Distinct keys that are not array indexes. -/
def Words (keys : List String) : Prop := keys.Nodup ∧ ∀ key ∈ keys, indexKey? key = none

instance (keys : List String) : Decidable (Words keys) := inferInstanceAs (Decidable (_ ∧ _))

/-- Documents whose mappings have distinct keys, in the order in which they are visited. -/
inductive Parsed : Doc → Prop where
  | null : Parsed .null
  | bool (b : Bool) : Parsed (.bool b)
  | int (n : Int) : Parsed (.int n)
  | float (x : Binary64) : Parsed (.float x)
  | text (s : String) : Parsed (.text s)
  | list {items : List Doc} : (∀ item ∈ items, Parsed item) → Parsed (.list items)
  | map {entries : List (String × Doc)} : (entries.map Prod.fst).Nodup →
    inOrder entries = entries → (∀ entry ∈ entries, Parsed entry.2) → Parsed (.map entries)

/-- Words stay where they are. -/
theorem inOrder_of_words {entries : List (String × Doc)} (h : Words (entries.map Prod.fst)) :
    inOrder entries = entries := by
  have hnone : ∀ entry ∈ entries, indexKey? entry.1 = none :=
    fun entry hentry => h.2 entry.1 (List.mem_map_of_mem hentry)
  have hrest : entries.filter (fun e => (indexKey? e.1).isNone) = entries :=
    List.filter_eq_self.mpr fun entry hentry => by rw [hnone entry hentry]; rfl
  rw [inOrder, hrest, List.append_left_eq_self, List.map_eq_nil_iff]
  refine List.foldlRecOn (motive := fun sorted => sorted = []) entries _ rfl ?_
  rintro _ rfl entry hentry
  rw [hnone entry hentry]

/-- A mapping whose keys are the words `keys`. -/
theorem Parsed.map_words {entries : List (String × Doc)} (keys : List String)
    (hkeys : entries.map Prod.fst = keys) (hwords : Words keys)
    (hentries : ∀ entry ∈ entries, Parsed entry.2) : Parsed (.map entries) := by
  subst hkeys
  exact .map hwords.1 (inOrder_of_words hwords) hentries

theorem Parsed.list_map {α : Type} {write : α → Doc} {xs : List α}
    (h : ∀ x ∈ xs, (write x).Parsed) : Parsed (.list (xs.map write)) :=
  .list (List.forall_mem_map.mpr h)

end Doc

open Doc

/-! ## Types -/

theorem indexKey?_typeKeyAt (k : Nat) : indexKey? (typeKeyAt k) = none := by
  have hdigits : (typeKeyAt k).toList.all Char.isDigit = false := by
    rw [typeKeyAt, String.toList_append, List.all_append]
    rfl
  rw [indexKey?]
  simp [hdigits]

theorem Ty.parsed_declaration (key : Ty → String) (t : Ty) : (t.declaration key).Parsed := by
  refine .map_words _ rfl ?_ ?_
  · cases t <;> simp only [Ty.details, List.map_cons, List.map_nil] <;> decide
  · cases t <;> simp [Ty.details, Parsed.text, Parsed.int, Parsed.bool, Parsed.list_map]

theorem parsed_typeEntries (ts : List Ty) : (Doc.map (typeEntries ts)).Parsed := by
  refine .map_words _ (keys_typeEntries ts) ?_ fun entry hentry => ?_
  · refine ⟨List.nodup_range.map fun _ _ => typeKeyAt_inj.mp, ?_⟩
    exact List.forall_mem_map.mpr fun k _ => indexKey?_typeKeyAt k
  · obtain ⟨k, hk, rfl⟩ := List.mem_mapIdx.mp hentry
    exact Ty.parsed_declaration _ _

/-! ## Constants -/

section Constants

variable (key : Ty → String)

mutual

theorem Value.parsed_toDoc (value : Value) : (value.toDoc key).Parsed := by
  cases value with
  | runtime | undef | zeroes =>
    exact .map_words ["special"] rfl (by decide) (by simp [Parsed.text])
  | static data => exact data.parsed_toDoc
  | unrecognised => exact .null

theorem Data.parsed_toDoc (data : Data) : (data.toDoc key).Parsed := by
  cases data with
  | void | aggregate | pureError => exact .map_words [] rfl (by decide) (by simp)
  | int n => exact .int n
  | float x => exact .float x
  | bool b => exact .bool b
  | type t => exact .text _
  | fn s | namespacePath s => exact .text s
  | scope line column =>
    exact .map_words ["line", "column"] rfl (by decide) (by simp [Parsed.int])
  | boundFn symbol receiver =>
    exact .map_words ["fn", "firstArg"] rfl (by decide) (by simp [Parsed.int, Parsed.text])
  | array elements => exact .list (Value.parsed_toDocs elements)
  | absent | unrecognised => exact .null
  | pointer value | present value => exact value.parsed_toDoc

theorem Value.parsed_toDocs (values : List Value) :
    ∀ doc ∈ Value.toDocs key values, doc.Parsed := by
  cases values with
  | nil => simp [Value.toDocs]
  | cons value rest =>
    exact List.forall_mem_cons.mpr ⟨value.parsed_toDoc, Value.parsed_toDocs rest⟩

end

end Constants

/-! ## Operations -/

theorem Variable.parsed_toDoc (slot : Variable) : slot.toDoc.Parsed :=
  .map_words ["name", "isConst", "isInline"] rfl (by decide) (by simp [Parsed.text, Parsed.bool])

theorem Callee.parsed_toDoc (callee : Callee) : callee.toDoc.Parsed := by
  cases callee with
  | fn symbol => exact .text symbol
  | operand id => exact .int id

theorem PhiEdge.parsed_toDoc (edge : PhiEdge) : edge.toDoc.Parsed :=
  .map_words ["block", "value"] rfl (by decide) (by simp [Parsed.int])

theorem SwitchCase.parsed_toDoc (c : SwitchCase) : c.toDoc.Parsed :=
  .map_words ["value", "block"] rfl (by decide) (by simp [Parsed.int])

theorem FieldInit.parsed_toDoc {nameKey : String} (hkeys : Words [nameKey, "value"])
    (init : FieldInit) : (init.toDoc nameKey).Parsed :=
  .map_words [nameKey, "value"] rfl hkeys (by simp [Parsed.int, Parsed.text])

theorem AsmOutput.parsed_toDoc (output : AsmOutput) : output.toDoc.Parsed := by
  obtain ⟨symbolicName, constraint, target⟩ := output
  cases target with
  | slot name =>
    exact .map_words ["symbolicName", "constraint", "variable"] rfl (by decide)
      (by simp [AsmTarget.entry, Parsed.text])
  | result type =>
    exact .map_words ["symbolicName", "constraint", "returnType"] rfl (by decide)
      (by simp [AsmTarget.entry, Parsed.text, Parsed.int])

theorem AsmInput.parsed_toDoc (input : AsmInput) : input.toDoc.Parsed :=
  .map_words ["symbolicName", "constraint", "operand"] rfl (by decide)
    (by simp [Parsed.int, Parsed.text])

namespace Operation

/-- The keys of every entry are words. -/
theorem words_fields (key : Ty → String) (op : Operation) :
    Words (headKeys ++ (op.fields key).map Prod.fst) := by
  cases op with
  | declVar slot type init =>
    cases type <;> simp only [fields, List.map_cons, List.map_nil] <;> decide
  | builtin fn argument | setting fn subject state =>
    simp only [fields, List.map_cons, List.map_nil]
    cases fn <;> decide
  | _ =>
    simp only [fields, List.map_cons, List.map_nil]
    decide

theorem parsed_fields (key : Ty → String) (op : Operation) :
    ∀ entry ∈ op.fields key, entry.2.Parsed := by
  cases op with
  | declVar slot type init =>
    cases type <;> simp [fields, Parsed.int, Variable.parsed_toDoc]
  | containerInitFields type inits =>
    have hinits : ∀ init ∈ inits, (init.toDoc "name").Parsed :=
      fun init _ => init.parsed_toDoc (by decide)
    simp [fields, Parsed.int, Parsed.list_map hinits]
  | structInit type inits =>
    have hinits : ∀ init ∈ inits, (init.toDoc "field").Parsed :=
      fun init _ => init.parsed_toDoc (by decide)
    simp [fields, Parsed.text, Parsed.list_map hinits]
  | _ =>
    simp [fields, Parsed.int, Parsed.text, Parsed.bool, Parsed.list_map, Variable.parsed_toDoc,
      Callee.parsed_toDoc, PhiEdge.parsed_toDoc, SwitchCase.parsed_toDoc,
      AsmOutput.parsed_toDoc, AsmInput.parsed_toDoc]

end Operation

end BlockIr
