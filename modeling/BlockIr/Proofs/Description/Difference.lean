import BlockIr.Description.Entry
import BlockIr.Proofs.Description.Node

/-!
# Documents that differ at one place

Two documents that agree everywhere but at one place are read alike on the way to it. Every other
key of a mapping on the way gives the same node, and so does every other position of a list.

* `Doc.DiffersAt`: the nodes at a place are related, all else is the same.
* `Node.DiffersAt.field?`, `Node.DiffersAt.list`: one step towards the place.
-/

namespace BlockIr

variable {R : Doc → Doc → Prop}

/-- Two documents that are the same but for what stands at a place. -/
inductive Doc.DiffersAt (R : Doc → Doc → Prop) : Place → Doc → Doc → Prop where
  | here {d d' : Doc} : R d d' → DiffersAt R [] d d'
  | key {key : String} {before after : List (String × Doc)} {d d' : Doc} {place : Place} :
    key ∉ before.map Prod.fst → DiffersAt R place d d' →
    DiffersAt R (.key key :: place) (.map (before ++ (key, d) :: after))
      (.map (before ++ (key, d') :: after))
  | item {before after : List Doc} {d d' : Doc} {place : Place} : DiffersAt R place d d' →
    DiffersAt R (.item before.length :: place) (.list (before ++ d :: after))
      (.list (before ++ d' :: after))

theorem Doc.DiffersAt.symm (hR : ∀ d d', R d d' → R d' d) {place : Place} {doc doc' : Doc}
    (h : doc.DiffersAt R place doc') : doc'.DiffersAt R place doc := by
  induction h with
  | here hd => exact .here (hR _ _ hd)
  | key hkey _ ih => exact .key hkey ih
  | item _ ih => exact .item ih

/-- Two nodes at the same place, with documents that differ at a place below. -/
structure Node.DiffersAt (R : Doc → Doc → Prop) (below : Place) (x x' : Node) : Prop where
  place : x'.place = x.place
  doc : Doc.DiffersAt R below x.doc x'.doc

section Lookup

variable {α : Type} {before after : List (String × α)} {key key' : String}

theorem lookup_middle (hkey : key ∉ before.map Prod.fst) (a : α) :
    (before ++ (key, a) :: after).lookup key = some a := by
  have hbefore : before.lookup key = none := by
    rw [List.lookup_eq_none_iff]
    intro entry hentry
    have hne : key ≠ entry.1 := fun heq => hkey (heq ▸ List.mem_map_of_mem hentry)
    exact bne_iff_ne.mpr hne
  rw [List.lookup_append, hbefore, List.lookup_cons_self]
  rfl

theorem lookup_middle_of_ne (hne : key' ≠ key) (a a' : α) :
    (before ++ (key, a) :: after).lookup key' = (before ++ (key, a') :: after).lookup key' := by
  rw [List.lookup_append, List.lookup_append, List.lookup_cons, List.lookup_cons,
    beq_eq_false_iff_ne.mpr hne]

end Lookup

namespace Node.DiffersAt

variable {below : Place} {x x' : Node} {key : String} {i : Nat}

/-- Any other key gives the same node. -/
theorem field?_of_ne (h : DiffersAt R (.key key :: below) x x') {key' : String}
    (hne : key' ≠ key) : x'.field? key' = x.field? key' := by
  obtain ⟨doc, place⟩ := x
  obtain ⟨doc', place'⟩ := x'
  obtain ⟨rfl, hdoc⟩ := h
  cases hdoc with
  | key =>
    rw [field?_map, field?_map]
    exact congrArg (fun d => Except.ok (Option.map _ d)) (lookup_middle_of_ne hne _ _)

/-- The key itself gives the nodes that are one step nearer. -/
theorem field? (h : DiffersAt R (.key key :: below) x x') :
    ∃ y y', x.field? key = .ok (some y) ∧ x'.field? key = .ok (some y') ∧
      DiffersAt R below y y' := by
  obtain ⟨doc, place⟩ := x
  obtain ⟨doc', place'⟩ := x'
  obtain ⟨rfl, hdoc⟩ := h
  cases hdoc with
  | @key _ before after d d' _ hkey hbelow =>
    refine ⟨⟨d, place' ++ [.key key]⟩, ⟨d', place' ++ [.key key]⟩, ?_, ?_, rfl, hbelow⟩
    · rw [field?_map, lookup_middle hkey]
      rfl
    · rw [field?_map, lookup_middle hkey]
      rfl

/-- A list gives the same nodes before and after its position. -/
theorem list (h : DiffersAt R (.item i :: below) x x') :
    ∃ before y y' after, before.length = i ∧ x.list = .ok (before ++ y :: after) ∧
      x'.list = .ok (before ++ y' :: after) ∧ DiffersAt R below y y' := by
  obtain ⟨doc, place⟩ := x
  obtain ⟨doc', place'⟩ := x'
  obtain ⟨rfl, hdoc⟩ := h
  cases hdoc with
  | @item before after d d' _ hbelow =>
    have hlist (d : Doc) : (⟨.list (before ++ d :: after), place'⟩ : Node).list = .ok _ :=
      congrArg Except.ok List.mapIdx_append
    simp only [List.mapIdx_cons, Nat.zero_add] at hlist
    exact ⟨_, _, _, _, List.length_mapIdx, hlist d, hlist d', rfl, hbelow⟩

/-- Two lists that are split at the position agree around it. -/
theorem of_list {before before' after after' : List Node} {y y' : Node}
    (h : DiffersAt R (.item before.length :: below) x x')
    (hx : x.list = .ok (before ++ y :: after)) (hx' : x'.list = .ok (before' ++ y' :: after'))
    (hlength : before'.length = before.length) :
    before' = before ∧ after' = after ∧ DiffersAt R below y y' := by
  obtain ⟨_, _, _, _, hsame, hlist, hlist', hbelow⟩ := h.list
  obtain ⟨rfl, hrest⟩ := List.append_inj (Except.ok.inj (hx.symm.trans hlist)) hsame.symm
  obtain ⟨rfl, hrest'⟩ := List.append_inj (Except.ok.inj (hx'.symm.trans hlist')) hlength
  cases hrest
  cases hrest'
  exact ⟨rfl, rfl, hbelow⟩

/-- Blocks that differ in their instructions alone have the same id and name hint. -/
theorem readBlockHead (h : DiffersAt R (.key "instructions" :: below) x x')
    (taken : BlockId → Bool) : readBlockHead taken x' = readBlockHead taken x := by
  have hid : x'.field? "id" = x.field? "id" := h.field?_of_ne (by decide)
  have hname : x'.field? "name" = x.field? "name" := h.field?_of_ne (by decide)
  have hfail (cause : Cause) : (x'.fail cause : Reading Node) = x.fail cause := by
    rw [Node.fail, Node.fail, h.place]
  simp only [BlockIr.readBlockHead, readFreshId, Node.field, Node.textOr, hid, hname, hfail]

end Node.DiffersAt

end BlockIr
