/-!
# Tables in insertion order

A table maps distinct keys to values and remembers the order in which the keys were first
stored. Storing a key again replaces its value and keeps its place.

* `find?_insert`: a stored value is found under its key and no other key is touched.
* `keys_insert`: a new key is appended, a known key keeps its place.
-/

namespace BlockIr

/-- Values under distinct keys, in insertion order. -/
structure Table (κ α : Type) where
  entries : List (κ × α)
  nodup : (entries.map Prod.fst).Nodup

namespace Table

variable {κ α : Type}

theorem ext_entries {s t : Table κ α} (h : s.entries = t.entries) : s = t := by
  cases s; cases t; cases h; rfl

/-- The table without entries. -/
def empty : Table κ α := ⟨[], by simp⟩

instance : Inhabited (Table κ α) := ⟨empty⟩

/-- Keys in insertion order. -/
def keys (t : Table κ α) : List κ := t.entries.map Prod.fst

/-- Values in insertion order of their keys. -/
def values (t : Table κ α) : List α := t.entries.map Prod.snd

/-- Apply `f` to every value. -/
def mapValues {β : Type} (f : κ → α → β) (t : Table κ α) : Table κ β where
  entries := t.entries.map fun e => (e.1, f e.1 e.2)
  nodup := by simpa [Function.comp_def] using t.nodup

theorem keys_mapValues {β : Type} (f : κ → α → β) (t : Table κ α) :
    (t.mapValues f).keys = t.keys := by
  simp [keys, mapValues, Function.comp_def]

variable [DecidableEq κ]

/-- Value under the first entry for `key`. -/
def findIn (key : κ) : List (κ × α) → Option α
  | [] => none
  | e :: rest => if e.1 = key then some e.2 else findIn key rest

/-- Value stored under `key`. -/
def find? (t : Table κ α) (key : κ) : Option α := findIn key t.entries

/-- Whether something is stored under `key`. -/
def contains (t : Table κ α) (key : κ) : Bool := (t.find? key).isSome

theorem findIn_eq_none_iff {key : κ} {es : List (κ × α)} :
    findIn key es = none ↔ key ∉ es.map Prod.fst := by
  induction es with
  | nil => simp [findIn]
  | cons e es ih =>
    by_cases h : e.1 = key
    · simp [findIn, h]
    · have h' : key ≠ e.1 := fun he => h he.symm
      simp [findIn, h, h', ih]

theorem contains_iff {t : Table κ α} {key : κ} : t.contains key = true ↔ key ∈ t.keys := by
  rw [contains, Option.isSome_iff_ne_none, ne_eq, find?, findIn_eq_none_iff,
    Decidable.not_not, keys]

/-- Replace the value under `key` in place, or append an entry. -/
def storeIn (key : κ) (value : α) : List (κ × α) → List (κ × α)
  | [] => [(key, value)]
  | e :: rest => if e.1 = key then (key, value) :: rest else e :: storeIn key value rest

theorem keys_storeIn (key : κ) (value : α) (es : List (κ × α)) :
    (storeIn key value es).map Prod.fst =
      if key ∈ es.map Prod.fst then es.map Prod.fst else es.map Prod.fst ++ [key] := by
  induction es with
  | nil => simp [storeIn]
  | cons e es ih =>
    by_cases h : e.1 = key
    · simp [storeIn, h]
    · have h' : key ≠ e.1 := fun he => h he.symm
      simp only [storeIn, h, if_false, List.map_cons, ih, List.mem_cons, h', false_or]
      split <;> simp

theorem findIn_storeIn (key key' : κ) (value : α) (es : List (κ × α)) :
    findIn key' (storeIn key value es) =
      if key = key' then some value else findIn key' es := by
  induction es with
  | nil => simp [storeIn, findIn]
  | cons e es ih =>
    by_cases h : e.1 = key
    · by_cases hk : key = key'
      · simp [storeIn, h, findIn, hk]
      · simp [storeIn, h, findIn, hk]
    · by_cases hk : key = key'
      · subst hk
        simp only [storeIn, h, if_false, findIn, ih, if_true]
      · by_cases he : e.1 = key'
        · have hk' : ¬ key' = key := fun h' => hk h'.symm
          simp [storeIn, findIn, he, hk, hk']
        · simp [storeIn, h, findIn, he, ih, hk]

/-- Store `value` under `key`. -/
def insert (t : Table κ α) (key : κ) (value : α) : Table κ α where
  entries := storeIn key value t.entries
  nodup := by
    rw [keys_storeIn]
    split
    · exact t.nodup
    · next h =>
      rw [List.nodup_append]
      refine ⟨t.nodup, by simp, ?_⟩
      intro a ha b hb
      rw [List.mem_singleton] at hb
      subst hb
      intro hab
      exact h (hab ▸ ha)

/-- A table holding `entries`, stored one after the other. -/
def ofList (entries : List (κ × α)) : Table κ α :=
  entries.foldl (fun t e => t.insert e.1 e.2) empty

/-- Apply `f` to the value under `key`, if there is one. -/
def modify (t : Table κ α) (key : κ) (f : α → α) : Table κ α :=
  t.mapValues fun k v => if k = key then f v else v

theorem find?_insert (t : Table κ α) (key key' : κ) (value : α) :
    (t.insert key value).find? key' = if key = key' then some value else t.find? key' :=
  findIn_storeIn key key' value t.entries

theorem keys_insert (t : Table κ α) (key : κ) (value : α) :
    (t.insert key value).keys = if key ∈ t.keys then t.keys else t.keys ++ [key] :=
  keys_storeIn key value t.entries

end Table

end BlockIr
