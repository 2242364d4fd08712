import Mathlib.Data.List.Nodup
import BlockIr.Table

/-!
# Entries of a table

A table is determined by its entries, and its keys are distinct, so a lookup and the
membership of an entry say the same.

* `find?_eq_some_iff`: a value is found under a key exactly when the pair is an entry.
* `map_values_of_own`: where values tell their own keys, the values are all of the entries.
* `entries_insert_of_notMem`: a new key is appended.
* `find?_of_perm`: the order of the entries makes no difference to what is found.
* `filterMap_find?_keys`: what is found under the keys, one after the other, are the values.
-/

namespace BlockIr.Table

variable {κ α : Type}

theorem mem_keys_of_mem {t : Table κ α} {entry : κ × α} (h : entry ∈ t.entries) :
    entry.1 ∈ t.keys :=
  List.mem_map_of_mem h

theorem mem_values_iff {t : Table κ α} {value : α} :
    value ∈ t.values ↔ ∃ key, (key, value) ∈ t.entries := by
  simp [values]

theorem map_values_of_own {f : α → κ} {t : Table κ α}
    (h : ∀ key value, (key, value) ∈ t.entries → f value = key) :
    (t.values.map fun value => (f value, value)) = t.entries := by
  rw [values, List.map_map]
  refine (List.map_congr_left fun e he => ?_).trans (List.map_id t.entries)
  exact Prod.ext (h e.1 e.2 he) rfl

theorem values_map_of_own {f : α → κ} {t : Table κ α}
    (h : ∀ key value, (key, value) ∈ t.entries → f value = key) : t.values.map f = t.keys := by
  have hkeys := congrArg (List.map Prod.fst) (map_values_of_own h)
  rwa [List.map_map] at hkeys

variable [DecidableEq κ]

theorem findIn_eq_some_iff {key : κ} {value : α} {es : List (κ × α)}
    (hes : (es.map Prod.fst).Nodup) : findIn key es = some value ↔ (key, value) ∈ es := by
  induction es with
  | nil => simp [findIn]
  | cons e es ih =>
    rw [List.map_cons, List.nodup_cons] at hes
    rw [List.mem_cons, findIn]
    split
    · rename_i hkey
      subst hkey
      constructor
      · intro h
        exact .inl (by rw [← Option.some.inj h])
      · rintro (h | h)
        · rw [← h]
        · exact absurd (List.mem_map_of_mem h) hes.1
    · rename_i hkey
      rw [ih hes.2]
      constructor
      · exact .inr
      · rintro (h | h)
        · exact absurd (by rw [← h]) hkey
        · exact h

/-- A value is found under a key exactly when the pair is an entry. -/
theorem find?_eq_some_iff {t : Table κ α} {key : κ} {value : α} :
    t.find? key = some value ↔ (key, value) ∈ t.entries :=
  findIn_eq_some_iff t.nodup

theorem mem_values_of_find? {t : Table κ α} {key : κ} {value : α} (h : t.find? key = some value) :
    value ∈ t.values :=
  mem_values_iff.mpr ⟨key, find?_eq_some_iff.mp h⟩

theorem find?_eq_none_iff {t : Table κ α} {key : κ} : t.find? key = none ↔ key ∉ t.keys :=
  findIn_eq_none_iff

theorem filterMap_find?_keys (t : Table κ α) : t.keys.filterMap t.find? = t.values := by
  rw [keys, values, List.filterMap_map, ← List.filterMap_eq_map]
  exact List.filterMap_congr fun e he => find?_eq_some_iff.mpr he

theorem exists_find?_of_mem_keys {t : Table κ α} {key : κ} (h : key ∈ t.keys) :
    ∃ value, t.find? key = some value := by
  rw [← Option.ne_none_iff_exists', ne_eq, find?_eq_none_iff]
  exact not_not_intro h

theorem contains_eq_false_iff {t : Table κ α} {key : κ} :
    t.contains key = false ↔ key ∉ t.keys := by
  rw [← contains_iff, Bool.not_eq_true]

theorem findIn_map {β : Type} {f : κ → α → β} {key : κ} {es : List (κ × α)} :
    findIn key (es.map fun e => (e.1, f e.1 e.2)) = (findIn key es).map (f key) := by
  induction es with
  | nil => rfl
  | cons e es ih =>
    rw [List.map_cons, findIn, findIn, ih]
    split
    · rename_i hkey
      rw [← hkey]
      rfl
    · rfl

theorem find?_mapValues {β : Type} {f : κ → α → β} {t : Table κ α} {key : κ} :
    (t.mapValues f).find? key = (t.find? key).map (f key) :=
  findIn_map

theorem storeIn_of_notMem {key : κ} {value : α} {es : List (κ × α)}
    (h : key ∉ es.map Prod.fst) : storeIn key value es = es ++ [(key, value)] := by
  induction es with
  | nil => rfl
  | cons e es ih =>
    rw [List.map_cons, List.mem_cons, not_or] at h
    rw [storeIn, if_neg (Ne.symm h.1), ih h.2, List.cons_append]

/-- A new key is appended. -/
theorem entries_insert_of_notMem {t : Table κ α} {key : κ} {value : α} (h : key ∉ t.keys) :
    (t.insert key value).entries = t.entries ++ [(key, value)] :=
  storeIn_of_notMem h

theorem keys_insert_of_notMem {t : Table κ α} {key : κ} {value : α} (h : key ∉ t.keys) :
    (t.insert key value).keys = t.keys ++ [key] := by
  rw [keys_insert, if_neg h]

theorem values_insert_of_notMem {t : Table κ α} {key : κ} {value : α} (h : key ∉ t.keys) :
    (t.insert key value).values = t.values ++ [value] := by
  rw [values, entries_insert_of_notMem h, List.map_append]
  rfl

/-- Entries in another order are found under the same keys. -/
theorem find?_of_perm {t t' : Table κ α} (h : t.entries.Perm t'.entries) (key : κ) :
    t'.find? key = t.find? key := by
  apply Option.ext
  intro value
  rw [find?_eq_some_iff, find?_eq_some_iff, h.mem_iff]

end BlockIr.Table
