import Mathlib.Data.List.Nodup
import BlockIr.Proofs.Description.TypeTable

/-!
# Writing types

A list of types is written as declarations, each under a key that tells its position. A type
names its parts by their keys, so in a list in which the parts of a type stand before it, every
declaration is resolved in one step, and the table gives every type under its key.

* `Ty.parts`: a type after everything it is built on.
* `resolveWithin_declaration`: what is declared is resolved.
* `Description.readTypes_typeEntries`: the table of the declarations of a list.
-/

namespace BlockIr

namespace Ty

/-- The type a type is built on. -/
def part? : Ty → Option Ty
  | .pointer _ child _ | .array _ child _ | .maybe _ child | .errorUnion _ child
  | .declared _ child => some child
  | _ => none

/-- Everything a type is built on, and the type itself at the end. -/
def parts : Ty → List Ty
  | .pointer name child isConst => child.parts ++ [.pointer name child isConst]
  | .array name child length => child.parts ++ [.array name child length]
  | .maybe name child => child.parts ++ [.maybe name child]
  | .errorUnion name child => child.parts ++ [.errorUnion name child]
  | .declared name canonical => canonical.parts ++ [.declared name canonical]
  | t => [t]

theorem parts_eq (t : Ty) : t.parts = (t.part?.map parts).getD [] ++ [t] := by
  cases t <;> rfl

theorem mem_parts (t : Ty) : t ∈ t.parts := by
  rw [parts_eq]
  simp

theorem Declarable.parts {t : Ty} (ht : t.Declarable) : ∀ c ∈ t.parts, c.Declarable := by
  induction t with
  | pointer _ _ _ ih | maybe _ _ ih | errorUnion _ _ ih | declared _ _ ih =>
    exact List.forall_mem_append.mpr ⟨ih ht, List.forall_mem_singleton.mpr ht⟩
  | array _ _ _ ih =>
    exact List.forall_mem_append.mpr ⟨ih ht.1, List.forall_mem_singleton.mpr ht⟩
  | _ => exact List.forall_mem_singleton.mpr ht

/-- What a declaration says beyond the kind and the name, where `key` tells the keys of other
types. -/
def details (key : Ty → String) : Ty → List (String × Doc)
  | .plain .. | .unrecognised .. => []
  | .int _ bits signed => [("bits", .int bits), ("signed", .bool signed)]
  | .float _ bits => [("bits", .int bits)]
  | .pointer _ child isConst => [("child", .text (key child)), ("isConst", .bool isConst)]
  | .array _ child length => [("child", .text (key child)), ("length", .int length)]
  | .maybe _ child | .errorUnion _ child => [("child", .text (key child))]
  | .aggregate _ _ fields => [("fields", .list (fields.map .text))]
  | .declared _ canonical => [("canonical", .text (key canonical))]

/-- How a type is declared. -/
def declaration (key : Ty → String) (t : Ty) : Doc :=
  .map (("kind", .text t.kindWord) :: ("name", .text t.name) :: t.details key)

end Ty

/-- Every type stands after the type it is built on. -/
inductive PartsFirst : List Ty → Prop where
  | nil : PartsFirst []
  | snoc {ts : List Ty} {t : Ty} : PartsFirst ts → (∀ c, t.part? = some c → c ∈ ts) →
    PartsFirst (ts ++ [t])

theorem PartsFirst.append {ts us : List Ty} (hts : PartsFirst ts) (hus : PartsFirst us) :
    PartsFirst (ts ++ us) := by
  induction hus with
  | nil => simpa using hts
  | snoc _ hpart ih =>
    rw [← List.append_assoc]
    exact ih.snoc fun c hc => List.mem_append_right _ (hpart c hc)

theorem partsFirst_parts (t : Ty) : PartsFirst t.parts := by
  induction t with
  | pointer _ child _ ih | array _ child _ ih | maybe _ child ih | errorUnion _ child ih
  | declared _ child ih =>
    apply ih.snoc
    intro c hc
    cases hc
    exact Ty.mem_parts child
  | _ =>
    apply PartsFirst.nil.snoc
    intro c hc
    cases hc

theorem partsFirst_flatMap (ts : List Ty) : PartsFirst (ts.flatMap Ty.parts) := by
  induction ts with
  | nil => exact .nil
  | cons t ts ih => exact (partsFirst_parts t).append ih

/-! ## Resolving a declaration -/

namespace Declaration

variable {key : Ty → String} {t : Ty} {place : Place}

/-- The type itself, or its making from the type it is built on. -/
def Gives (key : Ty → String) (t : Ty) (d : Declaration) : Prop :=
  match t.part? with
  | none => d = .complete t
  | some c => ∃ place build, d = .over ⟨.text (key c), place⟩ build ∧ build c = .ok t

theorem read_eq_readShape {name : String} {shape : Shape} (h : t.kindWord = shape.word) :
    read name ⟨t.declaration key, place⟩ =
      readShape ⟨t.declaration key, place⟩ t.name shape := by
  rw [read, Ty.declaration, Node.field_map (d := .text t.kindWord) rfl, ok_bind, h,
    Node.word_text (Shape.ofWord?_word shape), ok_bind, Node.textOr_map (s := t.name) rfl, ok_bind]

theorem readShape_gives (key : Ty → String) (place : Place) (ht : t.Declarable) :
    ∃ shape d, t.kindWord = shape.word ∧
      readShape ⟨t.declaration key, place⟩ t.name shape = .ok d ∧ d.Gives key t := by
  cases t with
  | plain kind name => exact ⟨.plain kind, _, rfl, rfl, rfl⟩
  | int name bits signed =>
    refine ⟨.int, _, rfl, ?_, rfl⟩
    rw [readShape, Ty.declaration, Node.id_map rfl ht, ok_bind, Node.boolOr_map (b := signed) rfl]
    rfl
  | float name bits =>
    refine ⟨.float, _, rfl, ?_, rfl⟩
    rw [readShape, Ty.declaration, Node.id_map rfl ht]
    rfl
  | pointer name child isConst =>
    refine ⟨.pointer, _, rfl, rfl, _, _, rfl, ?_⟩
    rw [Ty.declaration, Node.boolOr_map (b := isConst) rfl]
    rfl
  | array name child length =>
    refine ⟨.array, _, rfl, rfl, _, _, rfl, ?_⟩
    rw [Ty.declaration, Node.id_map rfl ht.2]
    rfl
  | maybe name child => exact ⟨.maybe, _, rfl, rfl, _, _, rfl, rfl⟩
  | errorUnion name child => exact ⟨.errorUnion, _, rfl, rfl, _, _, rfl, rfl⟩
  | aggregate kind name fields =>
    refine ⟨.aggregate kind, _, rfl, ?_, rfl⟩
    rw [readShape, Ty.declaration, Node.listOrEmpty_map rfl, ok_bind,
      Node.mapM_itemsAt fun field _ place => rfl]
    rfl
  | declared name canonical => exact ⟨.declared, _, rfl, rfl, _, _, rfl, rfl⟩
  | unrecognised => exact ht.elim

/-- A declaration is read back. -/
theorem read_declaration (name : String) (key : Ty → String) (place : Place)
    (ht : t.Declarable) :
    ∃ d, read name ⟨t.declaration key, place⟩ = .ok d ∧ d.Gives key t := by
  obtain ⟨shape, d, hword, hread, hd⟩ := readShape_gives key place ht
  exact ⟨d, (read_eq_readShape hword).trans hread, hd⟩

end Declaration

namespace TypeTable

variable {declarations : List (String × Node)} {left : Nat} {active : List String}
  {name : String} {site : Node} {known : Known}

theorem resolveWithin_declaration {key : Ty → String} {t : Ty} {place : Place}
    (hknown : known.lookup name = none)
    (hdeclared : declarations.lookup name = some ⟨t.declaration key, place⟩)
    (hactive : name ∉ active) (ht : t.Declarable)
    (hpart : ∀ c, t.part? = some c → known.lookup (key c) = some c) :
    resolveWithin declarations (left + 1) active name site known =
      .ok (t, (name, t) :: known) := by
  obtain ⟨d, hread, hd⟩ := Declaration.read_declaration name key place ht
  unfold resolveWithin
  simp only [hknown, hdeclared, if_neg hactive, hread, ok_bind]
  unfold Declaration.Gives at hd
  split at hd
  · subst hd
    rfl
  · rename_i c hc
    obtain ⟨place', build, rfl, hbuild⟩ := hd
    simp only [Node.text, ok_bind, resolveWithin_known (hpart c hc), hbuild]
    rfl

end TypeTable

/-! ## The table of a list -/

/-- The key of the type at a position. -/
def typeKeyAt (k : Nat) : String := "t" ++ Text.integer k

/-- The key of a type: that of the first position it has. -/
def typeKey (ts : List Ty) (t : Ty) : String := typeKeyAt (ts.idxOf t)

def typeEntries (ts : List Ty) : List (String × Doc) :=
  ts.mapIdx fun k t => (typeKeyAt k, t.declaration (typeKey ts))

theorem typeKeyAt_inj {j k : Nat} : typeKeyAt j = typeKeyAt k ↔ j = k := by
  refine ⟨fun h => ?_, fun h => by rw [h]⟩
  have hdigits := congrArg Text.integer? ((String.append_right_inj "t").mp h)
  rw [Text.integer?_integer, Text.integer?_integer] at hdigits
  exact Int.natCast_inj.mp (Option.some.inj hdigits)

theorem keys_typeEntries (ts : List Ty) :
    (typeEntries ts).map Prod.fst = (List.range ts.length).map typeKeyAt := by
  apply List.ext_getElem (by simp [typeEntries])
  intro k _ _
  simp [typeEntries]

namespace TypeTable

/-- The declarations as nodes of a mapping. -/
def nodesOf (place : Place) (entries : List (String × Doc)) : List (String × Node) :=
  entries.map fun e => (e.1, ⟨e.2, place ++ [.key e.1]⟩)

theorem lookup_nodesOf (place : Place) {ts : List Ty} {k : Nat} {t : Ty} (h : ts[k]? = some t) :
    ∃ place', (nodesOf place (typeEntries ts)).lookup (typeKeyAt k) =
      some ⟨t.declaration (typeKey ts), place'⟩ := by
  obtain ⟨hk, rfl⟩ := List.getElem?_eq_some_iff.mp h
  refine ⟨_, lookup_of_mem ?_ (List.mem_map_of_mem (List.mem_mapIdx.mpr ⟨k, hk, rfl⟩))⟩
  rw [nodesOf, List.map_map]
  have hkeys := keys_typeEntries ts
  simp only [Function.comp_def]
  rw [hkeys]
  exact List.Nodup.map (fun _ _ => typeKeyAt_inj.mp) List.nodup_range

/-- The types `pre` at the front of `ts` are known, and no other ones. -/
structure Knows (ts pre : List Ty) (known : Known) : Prop where
  types : ∀ t ∈ pre, known.lookup (typeKey ts t) = some t
  rest : ∀ k, pre.length ≤ k → k < ts.length → known.lookup (typeKeyAt k) = none

theorem knows_ofDeclarations (place : Place) (ts : List Ty) :
    Knows ts [] (ofDeclarations (nodesOf place (typeEntries ts))).known where
  types := by simp
  rest := by
    intro k _ hk
    obtain ⟨place', hlookup⟩ := lookup_nodesOf place (List.getElem?_eq_getElem hk)
    rw [List.lookup_eq_none_iff]
    intro entry hentry
    have hhidden := (List.mem_filter.mp hentry).2
    rw [bne_iff_ne]
    rintro heq
    rw [← heq, hlookup] at hhidden
    cases hhidden

theorem Knows.snoc {ts pre post : List Ty} {t : Ty} {known : Known} (h : Knows ts pre known)
    (hts : ts = pre ++ t :: post) :
    Knows ts (pre ++ [t]) ((typeKeyAt pre.length, t) :: known) where
  types := by
    intro u hu
    rw [List.lookup_cons]
    by_cases hpre : u ∈ pre
    · have hlt : ts.idxOf u < pre.length := by
        rw [hts, List.idxOf_append_of_mem hpre]
        exact List.idxOf_lt_length_of_mem hpre
      have hne : typeKey ts u ≠ typeKeyAt pre.length := by
        rw [typeKey, ne_eq, typeKeyAt_inj]
        omega
      rw [beq_eq_false_iff_ne.mpr hne]
      exact h.types u hpre
    · have hut : u = t := by simpa [hpre] using hu
      subst hut
      have hidx : ts.idxOf u = pre.length := by
        rw [hts, List.idxOf_append_of_notMem hpre, List.idxOf_cons_self, Nat.add_zero]
      rw [typeKey, hidx, beq_self_eq_true]
  rest := by
    intro k hk hlt
    rw [List.length_append, List.length_singleton] at hk
    have hne : typeKeyAt k ≠ typeKeyAt pre.length := by
      rw [ne_eq, typeKeyAt_inj]
      omega
    rw [List.lookup_cons, beq_eq_false_iff_ne.mpr hne]
    exact h.rest k (by omega) hlt

/-- The next type is resolved from those before it. -/
theorem Knows.resolve (place : Place) {ts pre post : List Ty} {t : Ty} {known : Known}
    (h : Knows ts pre known) (hts : ts = pre ++ t :: post) (ht : t.Declarable)
    (hpart : ∀ c, t.part? = some c → c ∈ pre) (site : Node) :
    resolve ⟨nodesOf place (typeEntries ts), known⟩ (typeKeyAt pre.length) site =
      .ok (t, ⟨nodesOf place (typeEntries ts), (typeKeyAt pre.length, t) :: known⟩) := by
  have hlength : (nodesOf place (typeEntries ts)).length = pre.length + post.length + 1 := by
    simp [nodesOf, typeEntries, hts, Nat.add_assoc]
  have hget : ts[pre.length]? = some t := by simp [hts]
  obtain ⟨place', hlookup⟩ := lookup_nodesOf place hget
  have hfresh := h.rest pre.length (Nat.le_refl _) (by simp [hts])
  have hresolve : resolveWithin (nodesOf place (typeEntries ts)) (pre.length + post.length + 1) []
      (typeKeyAt pre.length) site known = .ok (t, (typeKeyAt pre.length, t) :: known) :=
    resolveWithin_declaration hfresh hlookup List.not_mem_nil ht
      fun c hc => h.types c (hpart c hc)
  rw [TypeTable.resolve]
  simp only [hlength, hresolve]
  rfl

theorem lookup_of_knows {t : TypeTable} {ts : List Ty} (h : Knows ts ts t.known) {type : Ty}
    (htype : type ∈ ts) (place : Place) :
    t.lookup ⟨.text (typeKey ts type), place⟩ = .ok type := by
  simp only [lookup, Node.text, ok_bind, resolve, resolveWithin_known (h.types type htype)]
  rfl

end TypeTable

namespace Description

/-- The declarations of a list are resolved from front to back. -/
theorem foldl_resolveDeclared (root : Node) (place : Place) {ts pre : List Ty}
    (hpre : PartsFirst pre) (hd : ∀ t ∈ ts, t.Declarable) (post : List Ty)
    (hts : ts = pre ++ post) :
    ∃ known, ((List.range pre.length).map typeKeyAt).foldl (resolveDeclared root)
        (.ofDeclarations (TypeTable.nodesOf place (typeEntries ts)), []) =
      (⟨TypeTable.nodesOf place (typeEntries ts), known⟩, []) ∧ TypeTable.Knows ts pre known := by
  induction hpre generalizing post with
  | nil => exact ⟨_, rfl, TypeTable.knows_ofDeclarations place ts⟩
  | @snoc pre t _ hpart ih =>
    rw [List.append_assoc, List.singleton_append] at hts
    obtain ⟨known, hfold, hknows⟩ := ih (t :: post) hts
    refine ⟨_, ?_, hknows.snoc hts⟩
    have hresolve := hknows.resolve place hts (hd t (by simp [hts])) hpart root
    rw [List.length_append, List.length_singleton, List.range_succ, List.map_append,
      List.foldl_append, hfold, List.map_singleton, List.foldl_cons, List.foldl_nil,
      resolveDeclared, hresolve]

/-- The table of a description that declares a list of types gives every type under its key. -/
theorem readTypes_typeEntries {root : Node} {place : Place} {ts : List Ty}
    (hroot : root.field? "types" = .ok (some ⟨.map (typeEntries ts), place⟩))
    (hts : PartsFirst ts) (hd : ∀ t ∈ ts, t.Declarable) :
    ∃ types, readTypes root = (types, []) ∧
      ∀ t ∈ ts, ∀ place, types.lookup ⟨.text (typeKey ts t), place⟩ = .ok t := by
  obtain ⟨known, hfold, hknows⟩ :=
    foldl_resolveDeclared root place hts hd [] (List.append_nil ts).symm
  refine ⟨⟨TypeTable.nodesOf place (typeEntries ts), known⟩, ?_,
    fun t ht => TypeTable.lookup_of_knows hknows ht⟩
  have hread : TypeTable.read (some ⟨.map (typeEntries ts), place⟩) =
      .ok (.ofDeclarations (TypeTable.nodesOf place (typeEntries ts))) := rfl
  have hnames : (TypeTable.ofDeclarations
      (TypeTable.nodesOf place (typeEntries ts))).declarations.map Prod.fst =
      (List.range ts.length).map typeKeyAt := by
    rw [← keys_typeEntries, TypeTable.ofDeclarations, TypeTable.nodesOf, List.map_map]
    rfl
  simp only [readTypes, hroot, ok_bind, hread, hnames, hfold]

end Description

end BlockIr
