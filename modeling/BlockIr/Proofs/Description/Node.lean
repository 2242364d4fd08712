import BlockIr.Description.Node
import BlockIr.Proofs.Except
import BlockIr.Proofs.SafeInteger

/-!
# What nodes give

An index that was read lies between zero and the largest safe integer, and every such integer is
read as itself. A mapping gives what stands under a key, and a list what stands at a position: a
node one step further.

* `Node.isIndex_of_index`, `Node.index_int`: the range of indexes.
* `Node.field?_eq_some`, `Node.mem_list`, `Node.lookup_entries`: one step further.
* `Node.mapM_itemsAt`: items that were written one by one are read back.
-/

namespace BlockIr

/-- Ids, lengths and positions that a description can give. -/
def IsIndex (n : Int) : Prop := 0 ≤ n ∧ n ≤ Binary64.maxSafe

instance (n : Int) : Decidable (IsIndex n) := inferInstanceAs (Decidable (_ ∧ _))

theorem lookup_of_mem {α : Type} {entries : List (String × α)} {key : String} {a : α}
    (hkeys : (entries.map Prod.fst).Nodup) (h : (key, a) ∈ entries) :
    entries.lookup key = some a := by
  induction entries with
  | nil => cases h
  | cons entry entries ih =>
    rw [List.map_cons, List.nodup_cons] at hkeys
    rcases List.mem_cons.mp h with rfl | h
    · exact List.lookup_cons_self
    · have hne : key ≠ entry.1 := fun heq => hkeys.1 (heq ▸ List.mem_map_of_mem h)
      rw [List.lookup_cons, beq_eq_false_iff_ne.mpr hne]
      exact ih hkeys.2 h

namespace Node

theorem isIndex_of_index {node : Node} {n : Int} (h : node.index = .ok n) : IsIndex n := by
  obtain ⟨x, -, h⟩ := bind_eq_ok.mp h
  cases hx : x.toInt? with
  | none => simp [hx, fail] at h
  | some m =>
    simp only [hx] at h
    split at h
    · rename_i hm
      cases h
      exact hm
    · cases h

theorem isIndex_of_id {node : Node} {key : String} {n : Int} (h : node.id key = .ok n) :
    IsIndex n := by
  obtain ⟨entry, -, h⟩ := bind_eq_ok.mp h
  exact isIndex_of_index h

variable {place : Place}

theorem index_int {n : Int} (hn : IsIndex n) : (⟨.int n, place⟩ : Node).index = .ok n := by
  have hx : (Binary64.ofInt n).toInt? = some n := by
    refine Binary64.toInt?_ofInt ?_
    obtain ⟨hlow, hhigh⟩ := hn
    omega
  simp only [index, number, ok_bind, hx]
  exact if_pos hn

theorem word_text {α : Type} {w : String} {parse? : String → Option α} {cause : String → Cause}
    {a : α} (h : parse? w = some a) : (⟨.text w, place⟩ : Node).word parse? cause = .ok a := by
  simp only [word, text, ok_bind, h]
  rfl

/-! ## One step further -/

section Steps

variable {x y : Node} {key : String}

/-- What stands under a key is a node one step further. -/
theorem field?_eq_some (h : x.field? key = .ok (some y)) :
    x.doc.child? (.key key) = some y.doc ∧ y.place = x.place ++ [.key key] := by
  obtain ⟨d, place⟩ := x
  cases d with
  | map entries =>
    obtain ⟨d, hlookup, rfl⟩ := Option.map_eq_some_iff.mp (Except.ok.inj h)
    exact ⟨hlookup, rfl⟩
  | _ => cases h

theorem field?_of_field (h : x.field key = .ok y) : x.field? key = .ok (some y) := by
  obtain ⟨entry, hentry, h⟩ := bind_eq_ok.mp h
  cases entry with
  | none => cases h
  | some entry =>
    cases h
    exact hentry

/-- The items of a list are nodes one step further. -/
theorem mem_list {items : List Node} (h : x.list = .ok items) (hy : y ∈ items) :
    ∃ i, x.doc.child? (.item i) = some y.doc ∧ y.place = x.place ++ [.item i] := by
  obtain ⟨d, place⟩ := x
  cases d with
  | list docs =>
    cases h
    obtain ⟨i, hi, rfl⟩ := List.mem_mapIdx.mp hy
    exact ⟨i, List.getElem?_eq_getElem hi, rfl⟩
  | _ => cases h

/-- Entries stand under their keys, also those of a mapping that was listed. -/
theorem lookup_entries {declarations : List (String × Node)} {name : String}
    (h : x.entries = .ok declarations) (hy : declarations.lookup name = some y) :
    x.doc.child? (.key name) = some y.doc ∧ y.place = x.place ++ [.key name] := by
  obtain ⟨d, place⟩ := x
  cases d with
  | map entries =>
    cases h
    simp only [Doc.child?, Doc.get?]
    induction entries with
    | nil => cases hy
    | cons e entries ih =>
      rw [List.map_cons, List.lookup_cons] at hy
      rw [List.lookup_cons]
      cases hname : name == e.1 with
      | true =>
        rw [hname] at hy
        cases hy
        exact ⟨rfl, by rw [eq_of_beq hname]⟩
      | false =>
        rw [hname] at hy
        exact ih hy
  | _ => cases h

end Steps

/-! ## Mappings -/

section Mappings

variable {entries : List (String × Doc)} {key : String}

theorem field?_map : (⟨.map entries, place⟩ : Node).field? key =
    .ok ((entries.lookup key).map fun doc => ⟨doc, place ++ [.key key]⟩) := rfl

theorem has_map : (⟨.map entries, place⟩ : Node).has key = (entries.lookup key).isSome := rfl

theorem field_map {d : Doc} (h : entries.lookup key = some d) :
    (⟨.map entries, place⟩ : Node).field key = .ok ⟨d, place ++ [.key key]⟩ := by
  rw [field, field?_map, h]
  rfl

theorem id_map {n : Int} (h : entries.lookup key = some (.int n)) (hn : IsIndex n) :
    (⟨.map entries, place⟩ : Node).id key = .ok n := by
  rw [id, field_map h, ok_bind, index_int hn]

theorem boolOr_map {b default : Bool} (h : entries.lookup key = some (.bool b)) :
    (⟨.map entries, place⟩ : Node).boolOr key default = .ok b := by
  rw [boolOr, field?_map, h]
  rfl

theorem textOr_map {s default : String} (h : entries.lookup key = some (.text s)) :
    (⟨.map entries, place⟩ : Node).textOr key default = .ok s := by
  rw [textOr, field?_map, h]
  rfl

/-- The nodes of a list that stands under a key. -/
def itemsAt (place : Place) (key : String) (items : List Doc) : List Node :=
  items.mapIdx fun i item => ⟨item, place ++ [.key key] ++ [.item i]⟩

theorem listOrEmpty_map {items : List Doc} (h : entries.lookup key = some (.list items)) :
    (⟨.map entries, place⟩ : Node).listOrEmpty key = .ok (itemsAt place key items) := by
  rw [listOrEmpty, field?_map, h]
  rfl

end Mappings

/-! ## Lists -/

/-- A list gives a node for every item. -/
theorem docs_of_list {node : Node} {items : List Node} (h : node.list = .ok items) :
    node.doc = .list (items.map doc) := by
  obtain ⟨d, place⟩ := node
  cases d with
  | list docs =>
    cases h
    have hdocs :
        (docs.mapIdx fun i item => (⟨item, place ++ [.item i]⟩ : Node)).map doc = docs := by
      apply List.ext_getElem (by simp)
      intro i _ _
      rw [List.getElem_map, List.getElem_mapIdx]
    exact congrArg Doc.list hdocs.symm
  | _ => cases h

theorem docs_itemsAt (place : Place) (key : String) (items : List Doc) :
    (itemsAt place key items).map doc = items := by
  have hlist : (⟨.list items, place ++ [.key key]⟩ : Node).list =
      .ok (itemsAt place key items) := rfl
  exact (Doc.list.inj (docs_of_list hlist)).symm

/-- Items that were written one by one are read back. -/
theorem mapM_mapIdx {α : Type} {read : Node → Reading α} {write : α → Doc} {xs : List α}
    (h : ∀ x ∈ xs, ∀ place, read ⟨write x, place⟩ = .ok x) (places : Nat → Place) :
    ((xs.map write).mapIdx fun i item => (⟨item, places i⟩ : Node)).mapM read = .ok xs := by
  induction xs generalizing places with
  | nil => rfl
  | cons x xs ih =>
    rw [List.forall_mem_cons] at h
    rw [List.map_cons, List.mapIdx_cons, List.mapM_cons, h.1, ok_bind,
      ih h.2 fun i => places (i + 1)]
    rfl

theorem mapM_itemsAt {α : Type} {read : Node → Reading α} {write : α → Doc} {xs : List α}
    {key : String} (h : ∀ x ∈ xs, ∀ place, read ⟨write x, place⟩ = .ok x) :
    (itemsAt place key (xs.map write)).mapM read = .ok xs :=
  mapM_mapIdx h _

end Node

end BlockIr
