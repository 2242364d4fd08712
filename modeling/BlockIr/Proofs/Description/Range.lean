import BlockIr.Proofs.Description.Resolution
import BlockIr.Proofs.Description.Written.Parsed

/-!
# The range of a reading

Which values a description can give at a type. A state that is spelled out is read at every type.
Other data has to be in the range of the type, and all of that is read from what it is written as:
a pointer shares its node with the pointee, so the pointee has data of its own, and an optional
keeps a null node for itself, so nothing that only a null node gives is its payload.

* `TypeTable.Names`: the types a node can name.
* `Value.InRange`: the values of a type.
* `readValue_range`: they are read, and nothing else is.
-/

namespace BlockIr

/-- The type is named by some node. -/
def TypeTable.Names (types : TypeTable) (t : Ty) : Prop := ∃ node, types.lookup node = .ok t

/-- A value that a description can give at a type: one without data, or data in the range of the
type, where types in the data are named by the table. -/
def Value.InRange (types : TypeTable) (t : Ty) : Value → Prop
  | .runtime | .undef | .zeroes => True
  | .static data => t.Reads types.Names data
  | .unrecognised _ => False

variable {types : TypeTable} {t : Ty} {value : Value}

theorem Value.InRange.runtime_or_known (h : value.InRange types t) :
    value = .runtime ∨ value.KnownBy (t.Reads types.Names) := by
  cases value with
  | runtime => exact .inl rfl
  | _ => exact .inr h

/-- The name of a type is read at every place. -/
theorem TypeTable.Names.exists_name (h : types.Names t) :
    ∃ name, ∀ place, types.lookup ⟨.text name, place⟩ = .ok t := by
  obtain ⟨node, h⟩ := h
  obtain ⟨name, -, h⟩ := bind_eq_ok.mp h
  obtain ⟨⟨type, types'⟩, hresolve, h⟩ := bind_eq_ok.mp h
  obtain ⟨⟨type', known⟩, hwithin, hresolve⟩ := bind_eq_ok.mp hresolve
  cases h
  cases hresolve
  refine ⟨name, fun place => ?_⟩
  have hsite := TypeTable.resolveWithin_ok_site ⟨.text name, place⟩ hwithin
  simp only [TypeTable.lookup, Node.text, ok_bind, TypeTable.resolve, hsite]
  rfl

/-- A table has a name for every type that it names. -/
theorem TypeTable.exists_key (types : TypeTable) :
    ∃ key : Ty → String, ∀ t, types.Names t →
      ∀ place, types.lookup ⟨.text (key t), place⟩ = .ok t := by
  have hname (t : Ty) : ∃ name, types.Names t →
      ∀ place, types.lookup ⟨.text name, place⟩ = .ok t := by
    by_cases ht : types.Names t
    · obtain ⟨name, hname⟩ := ht.exists_name
      exact ⟨name, fun _ => hname⟩
    · exact ⟨"", fun h => absurd h ht⟩
  exact Classical.skolem.mp hname

/-- Whatever is read at a type is in its range. -/
theorem inRange_of_readValue {node : Node} (h : readValue types (some t) (some node) = .ok value) :
    value.InRange types t := by
  rcases readState_eq_ok h with ⟨-, rfl | rfl | rfl⟩ | ⟨hspecial, data, hdata, rfl⟩
  · exact trivial
  · exact trivial
  · exact trivial
  · exact readData_reads (fun node t ht => ⟨node, ht⟩) t hspecial hdata

/-- A value in the range of a type is read from what it is written as, wherever that stands. -/
theorem Value.InRange.readValue_toDoc (h : value.InRange types t) {key : Ty → String}
    (hkey : ∀ t, types.Names t → ∀ place, types.lookup ⟨.text (key t), place⟩ = .ok t)
    (place : Place) : readValue types (some t) (some ⟨value.toDoc key, place⟩) = .ok value := by
  refine readState_toDoc h.runtime_or_known (fun _ hdata => hdata.has_special) ?_
  intro data _ hdata
  exact readData_toDoc t hdata fun u hu => hkey u (hdata.types u hu)

/-- A value is read at a type from some node if and only if it is in the range of the type. There
is then a parsed document that gives it at every place. -/
theorem readValue_range (types : TypeTable) (t : Ty) (value : Value) :
    ((∃ node, readValue types (some t) (some node) = .ok value) ↔ value.InRange types t) ∧
    ((∃ doc : Doc, doc.Parsed ∧
        ∀ place, readValue types (some t) (some ⟨doc, place⟩) = .ok value) ↔
      value.InRange types t) := by
  have hwritten (h : value.InRange types t) : ∃ doc : Doc, doc.Parsed ∧
      ∀ place, readValue types (some t) (some ⟨doc, place⟩) = .ok value := by
    obtain ⟨key, hkey⟩ := types.exists_key
    exact ⟨value.toDoc key, value.parsed_toDoc key, h.readValue_toDoc hkey⟩
  constructor
  · constructor
    · rintro ⟨node, hnode⟩
      exact inRange_of_readValue hnode
    · intro h
      obtain ⟨doc, -, hdoc⟩ := hwritten h
      exact ⟨⟨doc, []⟩, hdoc []⟩
  · constructor
    · rintro ⟨doc, -, hdoc⟩
      exact inRange_of_readValue (hdoc [])
    · exact hwritten

/-- A pointer to an optional number. -/
def optionalTarget : Ty := .pointerTo (.maybeOf (.ofInt 8 false)) false

/-- A pointer to an absent optional is read, but not as the payload of an optional: the null node
that it comes from is an absent optional there. -/
theorem readValue_nullTarget :
    (∃ node, readValue .builtin (some optionalTarget) (some node) =
        .ok (.static (.pointer (.static .absent)))) ∧
      ¬ ∃ node, readValue .builtin (some (.maybeOf optionalTarget)) (some node) =
        .ok (.static (.present (.static (.pointer (.static .absent))))) := by
  constructor
  · rw [(readValue_range .builtin optionalTarget _).1]
    exact trivial
  · rw [(readValue_range .builtin (.maybeOf optionalTarget) _).1]
    rintro ⟨hpayload, -⟩
    exact hpayload trivial

end BlockIr
