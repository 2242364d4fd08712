import Mathlib.Data.List.Nodup
import Mathlib.Data.List.Perm.Subperm
import BlockIr.Proofs.Description.TypeTable

/-!
# What a type name stands for

A name stands for a type through a chain of declarations. Each of them is built on the next one,
down to a builtin type or to a declaration that is complete by itself. A table keeps the types
that were resolved, so it may answer before the end of the chain is reached, but it never answers
otherwise. Whatever names were asked for before, with or without success, a name has the same
type, and where it has none, the problem is the same.

* `TypeTable.Unfolds`: the chain of a name. No name occurs in it twice.
* `TypeTable.resolve_ok_iff`: a name is resolved if and only if it has a chain.
* `TypeTable.resolve_congr`, `TypeTable.lookup_congr`: what a table has kept makes no difference.
* `Description.errors_readTypes`: the problems of the declarations, each as if it were asked for
  alone.
-/

namespace BlockIr

namespace TypeTable

/-- A name stands for a type, through a chain of declared names that begins with it. -/
inductive Unfolds (declarations : List (String × Node)) : List String → String → Ty → Prop where
  | builtin {name : String} {type : Ty} : declarations.lookup name = none →
    builtin.known.lookup name = some type → Unfolds declarations [] name type
  | complete {name : String} {declaration : Node} {type : Ty} :
    declarations.lookup name = some declaration →
    Declaration.read name declaration = .ok (.complete type) →
    Unfolds declarations [name] name type
  | built {name part : String} {declaration child : Node} {build : Ty → Reading Ty}
    {chain : List String} {childType type : Ty} :
    declarations.lookup name = some declaration →
    Declaration.read name declaration = .ok (.over child build) → child.text = .ok part →
    Unfolds declarations chain part childType → build childType = .ok type →
    Unfolds declarations (name :: chain) name type

/-- The declaration of a name is built on another name. -/
def BuiltOn (declarations : List (String × Node)) (name part : String) : Prop :=
  ∃ declaration child build, declarations.lookup name = some declaration ∧
    Declaration.read name declaration = .ok (.over child build) ∧ child.text = .ok part

variable {declarations : List (String × Node)} {chain chain' : List String} {name part : String}
  {type type' : Ty}

/-! ## Chains -/

namespace Unfolds

theorem of_undeclared (hnone : declarations.lookup name = none)
    (h : Unfolds declarations chain name type) :
    chain = [] ∧ TypeTable.builtin.known.lookup name = some type := by
  cases h with
  | builtin _ hbuiltin => exact ⟨rfl, hbuiltin⟩
  | complete hdeclared | built hdeclared => cases hnone.symm.trans hdeclared

theorem of_complete {declaration : Node} (hdeclared : declarations.lookup name = some declaration)
    (hread : Declaration.read name declaration = .ok (.complete type'))
    (h : Unfolds declarations chain name type) : chain = [name] ∧ type = type' := by
  cases h with
  | builtin hnone => cases hnone.symm.trans hdeclared
  | complete hdeclared' hread' =>
    cases hdeclared.symm.trans hdeclared'
    cases hread.symm.trans hread'
    exact ⟨rfl, rfl⟩
  | built hdeclared' hread' =>
    cases hdeclared.symm.trans hdeclared'
    cases hread.symm.trans hread'

theorem of_built {declaration child : Node} {build : Ty → Reading Ty}
    (hdeclared : declarations.lookup name = some declaration)
    (hread : Declaration.read name declaration = .ok (.over child build))
    (hpart : child.text = .ok part) (h : Unfolds declarations chain name type) :
    ∃ chain' childType, chain = name :: chain' ∧ Unfolds declarations chain' part childType ∧
      build childType = .ok type := by
  cases h with
  | builtin hnone => cases hnone.symm.trans hdeclared
  | complete hdeclared' hread' =>
    cases hdeclared.symm.trans hdeclared'
    cases hread.symm.trans hread'
  | built hdeclared' hread' hpart' hchild hbuild =>
    cases hdeclared.symm.trans hdeclared'
    cases hread.symm.trans hread'
    cases hpart.symm.trans hpart'
    exact ⟨_, _, rfl, hchild, hbuild⟩

theorem unique (h : Unfolds declarations chain name type)
    (h' : Unfolds declarations chain' name type') : chain = chain' ∧ type = type' := by
  induction h generalizing chain' type' with
  | builtin hnone hbuiltin =>
    obtain ⟨rfl, hbuiltin'⟩ := h'.of_undeclared hnone
    cases hbuiltin.symm.trans hbuiltin'
    exact ⟨rfl, rfl⟩
  | complete hdeclared hread =>
    obtain ⟨rfl, rfl⟩ := h'.of_complete hdeclared hread
    exact ⟨rfl, rfl⟩
  | built hdeclared hread hpart _ hbuild ih =>
    obtain ⟨_, _, rfl, hchild', hbuild'⟩ := h'.of_built hdeclared hread hpart
    obtain ⟨rfl, rfl⟩ := ih hchild'
    cases hbuild.symm.trans hbuild'
    exact ⟨rfl, rfl⟩

/-- The chain goes on from every name in it. -/
theorem of_mem (h : Unfolds declarations chain name type) {a : String} (ha : a ∈ chain) :
    ∃ chain' type', Unfolds declarations chain' a type' ∧ chain'.length ≤ chain.length := by
  induction h with
  | builtin => cases ha
  | complete hdeclared hread =>
    obtain rfl := List.mem_singleton.mp ha
    exact ⟨_, _, .complete hdeclared hread, Nat.le_refl _⟩
  | built hdeclared hread hpart hchild hbuild ih =>
    rcases List.mem_cons.mp ha with rfl | ha
    · exact ⟨_, _, .built hdeclared hread hpart hchild hbuild, Nat.le_refl _⟩
    · obtain ⟨chain', type', h, hle⟩ := ih ha
      exact ⟨chain', type', h, Nat.le_succ_of_le hle⟩

theorem nodup (h : Unfolds declarations chain name type) : chain.Nodup := by
  induction h with
  | builtin => exact List.nodup_nil
  | complete => simp
  | @built name _ _ _ _ chain _ _ hdeclared hread hpart hchild hbuild ih =>
    refine List.nodup_cons.mpr ⟨?_, ih⟩
    -- The chain of a name that occurred again would be longer than itself.
    intro hmem
    obtain ⟨chain', type', h', hle⟩ := hchild.of_mem hmem
    obtain ⟨rfl, -⟩ := h'.unique (.built hdeclared hread hpart hchild hbuild)
    rw [List.length_cons] at hle
    omega

theorem declared (h : Unfolds declarations chain name type) :
    chain ⊆ declarations.map Prod.fst := by
  have hmem {a : String} {declaration : Node}
      (ha : declarations.lookup a = some declaration) : a ∈ declarations.map Prod.fst := by
    obtain ⟨before, after, rfl, -⟩ := List.lookup_eq_some_iff.mp ha
    simp
  induction h with
  | builtin => exact List.nil_subset _
  | complete hdeclared _ => exact List.cons_subset.mpr ⟨hmem hdeclared, List.nil_subset _⟩
  | built hdeclared _ _ _ _ ih => exact List.cons_subset.mpr ⟨hmem hdeclared, ih⟩

/-- What a name is built on has a shorter chain. -/
theorem of_builtOn (h : Unfolds declarations chain name type)
    (hpart : Relation.TransGen (BuiltOn declarations) name part) :
    ∃ chain' type', Unfolds declarations chain' part type' ∧ chain'.length < chain.length := by
  induction hpart with
  | single hab =>
    obtain ⟨_, _, _, hdeclared, hread, hb⟩ := hab
    obtain ⟨chain', childType, rfl, hchild, -⟩ := h.of_built hdeclared hread hb
    exact ⟨chain', childType, hchild, Nat.lt_succ_self _⟩
  | tail _ hbc ih =>
    obtain ⟨chain', type', h', hlt⟩ := ih
    obtain ⟨_, _, _, hdeclared, hread, hc⟩ := hbc
    obtain ⟨chain'', childType, rfl, hchild, -⟩ := h'.of_built hdeclared hread hc
    exact ⟨chain'', childType, hchild, (Nat.lt_succ_self _).trans hlt⟩

/-- Only what is declared under a name matters, not where the declaration stands. -/
theorem congr {declarations' : List (String × Node)}
    (hlookup : ∀ name, declarations.lookup name = declarations'.lookup name)
    (h : Unfolds declarations chain name type) : Unfolds declarations' chain name type := by
  induction h with
  | builtin hnone hbuiltin => exact .builtin (hlookup _ ▸ hnone) hbuiltin
  | complete hdeclared hread => exact .complete (hlookup _ ▸ hdeclared) hread
  | built hdeclared hread hpart _ hbuild ih =>
    exact .built (hlookup _ ▸ hdeclared) hread hpart ih hbuild

end Unfolds

/-! ## Tables that keep what they resolved -/

/-- The types that are known are those their names stand for. Builtin types are known from the
start, unless a declaration hides them. -/
structure Faithful (declarations : List (String × Node)) (known : Known) : Prop where
  unfolds : ∀ name type, known.lookup name = some type →
    ∃ chain, Unfolds declarations chain name type
  builtins : ∀ name, declarations.lookup name = none →
    known.lookup name = builtin.known.lookup name

variable {known known' : Known} {active : List String} {left : Nat} {site : Node}

theorem Faithful.cons (hk : Faithful declarations known)
    (h : Unfolds declarations chain name type) : Faithful declarations ((name, type) :: known) := by
  constructor
  · intro a t ha
    rw [List.lookup_cons] at ha
    split at ha
    · rename_i heq
      cases ha
      obtain rfl := beq_iff_eq.mp heq
      exact ⟨chain, h⟩
    · exact hk.unfolds a t ha
  · intro a hnone
    rw [List.lookup_cons]
    split
    · rename_i heq
      obtain rfl := beq_iff_eq.mp heq
      exact (h.of_undeclared hnone).2.symm
    · exact hk.builtins a hnone

/-- What is resolved has a chain, and so has everything that is known after it. -/
theorem unfolds_of_resolves (hk : Faithful declarations known)
    (h : Resolves declarations active name known type known') :
    (∃ chain, Unfolds declarations chain name type) ∧ Faithful declarations known' := by
  induction h with
  | known hknown => exact ⟨hk.unfolds _ _ hknown, hk⟩
  | complete _ hdeclared _ hread =>
    have hname := Unfolds.complete hdeclared hread
    exact ⟨⟨_, hname⟩, hk.cons hname⟩
  | built _ hdeclared _ hread hpart _ hbuild ih =>
    obtain ⟨⟨chain, hchild⟩, hk'⟩ := ih hk
    have hname := Unfolds.built hdeclared hread hpart hchild hbuild
    exact ⟨⟨_, hname⟩, hk'.cons hname⟩

/-- A name with a chain is resolved, if nothing in the chain is being resolved. -/
theorem resolveWithin_of_unfolds (site : Node) (h : Unfolds declarations chain name type)
    (hk : Faithful declarations known) (hleft : chain.length ≤ left)
    (hactive : List.Disjoint chain active) :
    ∃ known', resolveWithin declarations left active name site known = .ok (type, known') := by
  induction h generalizing left active site with
  | builtin hnone hbuiltin =>
    rw [← hk.builtins _ hnone] at hbuiltin
    exact ⟨known, resolveWithin_known hbuiltin⟩
  | @complete name declaration type hdeclared hread =>
    cases hknown : known.lookup name with
    | some t =>
      obtain ⟨_, ht⟩ := hk.unfolds name t hknown
      obtain ⟨-, rfl⟩ := ht.of_complete hdeclared hread
      exact ⟨known, resolveWithin_known hknown⟩
    | none =>
      obtain ⟨left, rfl⟩ := Nat.exists_eq_succ_of_ne_zero (Nat.pos_iff_ne_zero.mp hleft)
      have hname : name ∉ active := List.disjoint_left.mp hactive List.mem_cons_self
      refine ⟨(name, type) :: known, ?_⟩
      rw [resolveWithin]
      simp only [hknown, hdeclared, if_neg hname, hread, ok_bind]
      rfl
  | @built name part declaration child build chain childType type hdeclared hread hpart hchild
      hbuild ih =>
    have hself : Unfolds declarations (name :: chain) name type :=
      .built hdeclared hread hpart hchild hbuild
    cases hknown : known.lookup name with
    | some t =>
      obtain ⟨_, ht⟩ := hk.unfolds name t hknown
      obtain ⟨-, rfl⟩ := ht.unique hself
      exact ⟨known, resolveWithin_known hknown⟩
    | none =>
      rw [List.length_cons] at hleft
      obtain ⟨left, rfl⟩ := Nat.exists_eq_succ_of_ne_zero (show left ≠ 0 by omega)
      have hname : name ∉ active := List.disjoint_left.mp hactive List.mem_cons_self
      have hrest : List.Disjoint chain (name :: active) := by
        rw [List.disjoint_cons_right]
        exact ⟨(List.nodup_cons.mp hself.nodup).1, List.disjoint_of_disjoint_cons_left hactive⟩
      obtain ⟨known', hresolve⟩ := ih child (Nat.le_of_succ_le_succ hleft) hrest
      refine ⟨(name, type) :: known', ?_⟩
      rw [resolveWithin]
      simp only [hknown, hdeclared, if_neg hname, hread, hpart, hresolve, hbuild, ok_bind]
      rfl

/-- A name that what is being resolved is built on, with enough steps left for its chain. -/
structure Reached (declarations : List (String × Node)) (left : Nat) (active : List String)
    (name : String) : Prop where
  builtOn : ∀ a ∈ active, Relation.TransGen (BuiltOn declarations) a name
  nodup : active.Nodup
  declared : active ⊆ declarations.map Prod.fst
  room : declarations.length ≤ left + active.length

theorem reached_start (declarations : List (String × Node)) (name : String) :
    Reached declarations declarations.length [] name where
  builtOn := by simp
  nodup := List.nodup_nil
  declared := List.nil_subset _
  room := Nat.le_refl _

theorem Reached.step (h : Reached declarations (left + 1) active name) (hname : name ∉ active)
    (hpart : BuiltOn declarations name part) :
    Reached declarations left (name :: active) part where
  builtOn := by
    intro a ha
    rcases List.mem_cons.mp ha with rfl | ha
    · exact .single hpart
    · exact .tail (h.builtOn a ha) hpart
  nodup := List.nodup_cons.mpr ⟨hname, h.nodup⟩
  declared := by
    obtain ⟨_, _, _, hdeclared, -⟩ := hpart
    obtain ⟨before, after, rfl, -⟩ := List.lookup_eq_some_iff.mp hdeclared
    exact List.cons_subset.mpr ⟨by simp, h.declared⟩
  room := by
    have hroom := h.room
    rw [List.length_cons]
    omega

/-- The chain of a name avoids what is being resolved, so there are steps enough for it. -/
theorem Reached.avoids (h : Reached declarations left active name)
    (hname : Unfolds declarations chain name type) :
    chain.length ≤ left ∧ List.Disjoint chain active := by
  have hdisjoint : List.Disjoint chain active := by
    intro a ha hactive
    obtain ⟨chain', _, h', hle⟩ := hname.of_mem ha
    obtain ⟨chain'', _, h'', hlt⟩ := h'.of_builtOn (h.builtOn a hactive)
    obtain ⟨rfl, -⟩ := h''.unique hname
    omega
  have hnodup : (chain ++ active).Nodup := List.Nodup.append hname.nodup h.nodup hdisjoint
  have hsubset : chain ++ active ⊆ declarations.map Prod.fst :=
    List.append_subset.mpr ⟨hname.declared, h.declared⟩
  have hlength := (hnodup.subperm hsubset).length_le
  have hroom := h.room
  rw [List.length_append, List.length_map] at hlength
  exact ⟨by omega, hdisjoint⟩

theorem Faithful.lookup_eq_none (hk : Faithful declarations known)
    (hname : ¬ ∃ chain type, Unfolds declarations chain name type) : known.lookup name = none := by
  rw [Option.eq_none_iff_forall_ne_some]
  intro type hknown
  obtain ⟨chain, h⟩ := hk.unfolds name type hknown
  exact hname ⟨chain, type, h⟩

/-- What becomes of two tries that resolve a type to the same, or fail alike. -/
theorem fst_bind_congr {x y : Reading (Ty × Known)} {f : Ty → Reading Ty}
    (h : Prod.fst <$> x = Prod.fst <$> y) :
    Prod.fst <$> (do
        let (t, known) ← x
        let type ← f t
        return (type, (name, type) :: known)) =
      Prod.fst <$> (do
        let (t, known) ← y
        let type ← f t
        return (type, (name, type) :: known)) := by
  rcases x with e | ⟨t, known⟩ <;> rcases y with e' | ⟨t', known'⟩ <;> cases h
  · rfl
  · simp only [ok_bind]
    cases f t <;> rfl

/-- Whatever is known, a name is resolved to the same type, or fails with the same problem. -/
theorem resolveWithin_congr (h : Reached declarations left active name)
    (hk : Faithful declarations known) (hk' : Faithful declarations known') :
    Prod.fst <$> resolveWithin declarations left active name site known =
      Prod.fst <$> resolveWithin declarations left active name site known' := by
  have hchain {left : Nat} {active : List String} {name : String} {site : Node}
      (h : Reached declarations left active name)
      (hname : ∃ chain type, Unfolds declarations chain name type) :
      Prod.fst <$> resolveWithin declarations left active name site known =
        Prod.fst <$> resolveWithin declarations left active name site known' := by
    obtain ⟨chain, type, hname⟩ := hname
    obtain ⟨hleft, hactive⟩ := h.avoids hname
    obtain ⟨_, hresolve⟩ := resolveWithin_of_unfolds site hname hk hleft hactive
    obtain ⟨_, hresolve'⟩ := resolveWithin_of_unfolds site hname hk' hleft hactive
    rw [hresolve, hresolve']
    rfl
  -- A name without a chain is in neither table, so both take the same steps down.
  induction left generalizing active name site with
  | zero =>
    by_cases hname : ∃ chain type, Unfolds declarations chain name type
    · exact hchain h hname
    · unfold resolveWithin
      rw [hk.lookup_eq_none hname, hk'.lookup_eq_none hname]
      cases declarations.lookup name with
      | none => rfl
      | some declaration =>
        by_cases hactive : name ∈ active <;> simp only [hactive, if_true, if_false]
  | succ left ih =>
    by_cases hname : ∃ chain type, Unfolds declarations chain name type
    · exact hchain h hname
    · unfold resolveWithin
      rw [hk.lookup_eq_none hname, hk'.lookup_eq_none hname]
      cases hdeclared : declarations.lookup name with
      | none => rfl
      | some declaration =>
        by_cases hactive : name ∈ active
        · simp only [if_pos hactive]
        · simp only [if_neg hactive]
          cases hread : Declaration.read name declaration with
          | error e => rfl
          | ok d =>
            rcases d with type | ⟨child, build⟩
            · rfl
            · cases hpart : child.text with
              | error e => simp only [ok_bind, hpart, error_bind]
              | ok part =>
                have hstep := h.step hactive ⟨declaration, child, build, hdeclared, hread, hpart⟩
                simp only [ok_bind, hpart]
                exact fst_bind_congr (ih hstep)

/-- Nothing but the place of a problem depends on where a name stands. -/
theorem resolveWithin_site {site' : Node} (hsite : site.place = site'.place) :
    resolveWithin declarations left active name site known =
      resolveWithin declarations left active name site' known := by
  have hfail (cause : Cause) :
      (site.fail cause : Reading (Ty × Known)) = site'.fail cause := by
    rw [Node.fail, Node.fail, hsite]
  cases left with
  | zero =>
    unfold resolveWithin
    rw [hfail]
  | succ left =>
    unfold resolveWithin
    rw [hfail]

/-- A name that is resolved at one place is resolved at every place. -/
theorem resolveWithin_ok_site (site' : Node)
    (h : resolveWithin declarations left active name site known = .ok (type, known')) :
    resolveWithin declarations left active name site' known = .ok (type, known') := by
  have hfound : ¬ (known.lookup name = none ∧ declarations.lookup name = none) := by
    rintro ⟨hknown, hdeclared⟩
    unfold resolveWithin at h
    rw [hknown, hdeclared] at h
    cases h
  unfold resolveWithin at h ⊢
  split
  · rename_i hknown
    rw [hknown] at h
    exact h
  · rename_i hknown hdeclared
    exact absurd ⟨hknown, hdeclared⟩ hfound
  · rename_i hknown hdeclared
    rw [hknown, hdeclared] at h
    exact h

/-! ## Answers of a table -/

/-- A table whose known types are those their names stand for. -/
def IsFaithful (t : TypeTable) : Prop := Faithful t.declarations t.known

variable {t t' : TypeTable} {node : Node}

/-- A name is resolved if and only if it has a chain. -/
theorem resolve_ok_iff (site : Node) (ht : t.IsFaithful) :
    (∃ t', t.resolve name site = .ok (type, t')) ↔
      ∃ chain, Unfolds t.declarations chain name type := by
  constructor
  · rintro ⟨t', h⟩
    obtain ⟨⟨_, known⟩, hresolve, h⟩ := bind_eq_ok.mp h
    cases h
    exact (unfolds_of_resolves ht (resolves_of_resolveWithin hresolve)).1
  · rintro ⟨chain, hname⟩
    have hreached := (reached_start t.declarations name).avoids hname
    obtain ⟨known, hresolve⟩ :=
      resolveWithin_of_unfolds site hname ht hreached.1 hreached.2
    refine ⟨{ t with known }, ?_⟩
    rw [resolve, hresolve]
    rfl

theorem IsFaithful.resolve (ht : t.IsFaithful)
    (h : t.resolve name site = .ok (type, t')) :
    t'.declarations = t.declarations ∧ t'.IsFaithful := by
  obtain ⟨⟨_, known⟩, hresolve, h⟩ := bind_eq_ok.mp h
  cases h
  exact ⟨rfl, (unfolds_of_resolves ht (resolves_of_resolveWithin hresolve)).2⟩

/-- What a table has kept makes no difference to what it resolves, nor to the problem. -/
theorem resolve_congr (ht : t.IsFaithful) (ht' : t'.IsFaithful)
    (hdeclarations : t'.declarations = t.declarations) (name : String) (site : Node) :
    Prod.fst <$> t'.resolve name site = Prod.fst <$> t.resolve name site := by
  have hfst (u : TypeTable) : Prod.fst <$> u.resolve name site =
      Prod.fst <$> resolveWithin u.declarations u.declarations.length [] name site u.known := by
    rw [TypeTable.resolve]
    cases resolveWithin u.declarations u.declarations.length [] name site u.known <;> rfl
  rw [hfst, hfst, hdeclarations]
  exact resolveWithin_congr (reached_start t.declarations name) (hdeclarations ▸ ht') ht

theorem lookup_congr (ht : t.IsFaithful) (ht' : t'.IsFaithful)
    (hdeclarations : t'.declarations = t.declarations) (node : Node) :
    t'.lookup node = t.lookup node := by
  have hfst (u : TypeTable) :
      u.lookup node = node.text >>= fun name => Prod.fst <$> u.resolve name node := rfl
  rw [hfst, hfst]
  congr 1
  funext name
  exact resolve_congr ht ht' hdeclarations name node

/-- A node names a type if and only if it is a name with a chain. -/
theorem lookup_ok_iff (ht : t.IsFaithful) :
    t.lookup node = .ok type ↔
      ∃ name chain, node.text = .ok name ∧ Unfolds t.declarations chain name type := by
  constructor
  · intro h
    obtain ⟨name, hname, h⟩ := bind_eq_ok.mp h
    obtain ⟨⟨_, t'⟩, hresolve, h⟩ := bind_eq_ok.mp h
    cases h
    obtain ⟨chain, hchain⟩ := (resolve_ok_iff node ht).mp ⟨t', hresolve⟩
    exact ⟨name, chain, hname, hchain⟩
  · rintro ⟨name, chain, hname, hchain⟩
    obtain ⟨t', hresolve⟩ := (resolve_ok_iff node ht).mpr ⟨chain, hchain⟩
    rw [lookup, hname, ok_bind, hresolve]
    rfl

/-- A table after names were resolved, one by one: whether inside a resolution or not, and
whether or not that one succeeded, each type that its name was resolved to is kept. -/
inductive Remembers (t : TypeTable) : TypeTable → Prop where
  | start : Remembers t t
  | keep {u : TypeTable} {left : Nat} {active : List String} {name : String} {site : Node}
    {type : Ty} {known : Known} : Remembers t u →
    resolveWithin u.declarations left active name site u.known = .ok (type, known) →
    Remembers t { u with known := (name, type) :: u.known }

theorem Remembers.faithful (h : t.Remembers t') (ht : t.IsFaithful) :
    t'.declarations = t.declarations ∧ t'.IsFaithful := by
  induction h with
  | start => exact ⟨rfl, ht⟩
  | keep _ hresolve ih =>
    obtain ⟨hdeclarations, hu⟩ := ih
    obtain ⟨⟨chain, hname⟩, -⟩ := unfolds_of_resolves hu (resolves_of_resolveWithin hresolve)
    exact ⟨hdeclarations, hu.cons hname⟩

/-- Whatever a table remembers, its answers are the same. -/
theorem Remembers.lookup (h : t.Remembers t') (ht : t.IsFaithful) (node : Node) :
    t'.lookup node = t.lookup node := by
  obtain ⟨hdeclarations, ht'⟩ := h.faithful ht
  exact lookup_congr ht ht' hdeclarations node

/-! ## Tables of descriptions -/

theorem lookup_filter (p : String → Bool) (known : Known) (name : String) :
    (known.filter fun e => p e.1).lookup name = if p name then known.lookup name else none := by
  induction known with
  | nil => simp
  | cons e known ih =>
    obtain ⟨key, type⟩ := e
    by_cases hname : name = key
    · subst hname
      cases hp : p name with
      | true => simp [hp]
      | false => simp [hp, ih]
    · have hne : (name == key) = false := beq_eq_false_iff_ne.mpr hname
      cases hp : p key with
      | true => simp only [List.filter_cons, hp, if_true, List.lookup_cons, hne, ih]
      | false => simp [hp, ih, List.lookup_cons, hne]

theorem ofDeclarations_faithful (declarations : List (String × Node)) :
    (ofDeclarations declarations).IsFaithful := by
  have hknown (name : String) : (ofDeclarations declarations).known.lookup name =
      if (declarations.lookup name).isNone then builtin.known.lookup name else none :=
    lookup_filter (fun name => (declarations.lookup name).isNone) builtin.known name
  constructor
  · intro name type h
    rw [hknown] at h
    split at h
    · rename_i hnone
      exact ⟨[], .builtin (Option.isNone_iff_eq_none.mp hnone) h⟩
    · cases h
  · intro name hnone
    have hnone : declarations.lookup name = none := hnone
    rw [hknown, hnone]
    rfl

theorem builtin_faithful : builtin.IsFaithful where
  unfolds _ _ h := ⟨[], .builtin rfl h⟩
  builtins _ _ := rfl

theorem faithful_of_read {node : Option Node} {t : TypeTable} (h : TypeTable.read node = .ok t) :
    t.IsFaithful := by
  cases node with
  | none =>
    cases h
    exact builtin_faithful
  | some node =>
    obtain ⟨declarations, -, h⟩ := bind_eq_ok.mp h
    cases h
    exact ofDeclarations_faithful declarations

end TypeTable

namespace Description

open TypeTable

/-- Nothing but the declarations and the place of the root decides what the types are. -/
theorem readTypes_congr {root root' : Node} (hplace : root'.place = root.place)
    (h : root'.field? "types" = root.field? "types") : readTypes root' = readTypes root := by
  have hstep : resolveDeclared root' = resolveDeclared root := by
    funext state name
    simp only [resolveDeclared, TypeTable.resolve, TypeTable.resolveWithin_site hplace]
  rw [readTypes, readTypes, h, hstep]

/-- The problem of a declared name, if it is asked for before all others. -/
def problemsOf (t : TypeTable) (root : Node) (name : String) : List LoadError :=
  match t.resolve name root with
  | .error e => [e]
  | .ok _ => []

/-- The declarations are resolved one after the other, and each gives the problem it gives
alone. -/
theorem foldl_resolveDeclared_faithful {root : Node} {t u : TypeTable} (ht : t.IsFaithful)
    (hu : u.IsFaithful) (hdeclarations : u.declarations = t.declarations) (names : List String)
    (errors : List LoadError) :
    (names.foldl (resolveDeclared root) (u, errors)).1.declarations = t.declarations ∧
      (names.foldl (resolveDeclared root) (u, errors)).1.IsFaithful ∧
      (names.foldl (resolveDeclared root) (u, errors)).2 =
        errors ++ names.flatMap (problemsOf t root) := by
  induction names generalizing u errors with
  | nil => exact ⟨hdeclarations, hu, by simp⟩
  | cons name names ih =>
    have hsame := resolve_congr ht hu hdeclarations name root
    rw [List.foldl_cons, List.flatMap_cons, resolveDeclared, problemsOf]
    cases hresolve : t.resolve name root with
    | error e =>
      rw [hresolve] at hsame
      cases hresolve' : u.resolve name root with
      | ok r =>
        rw [hresolve'] at hsame
        cases hsame
      | error e' =>
        rw [hresolve'] at hsame
        cases hsame
        obtain ⟨h₁, h₂, h₃⟩ := ih hu hdeclarations (errors ++ [e])
        exact ⟨h₁, h₂, by rw [h₃, List.append_assoc]⟩
    | ok r =>
      rw [hresolve] at hsame
      cases hresolve' : u.resolve name root with
      | error e' =>
        rw [hresolve'] at hsame
        cases hsame
      | ok r' =>
        obtain ⟨hd, hu'⟩ := hu.resolve hresolve'
        exact ih hu' (hd.trans hdeclarations) errors

theorem declared_readTypes {root : Node} {types : TypeTable}
    (h : (do TypeTable.read (← root.field? "types")) = .ok types) :
    (readTypes root).1.declarations = types.declarations ∧ (readTypes root).1.IsFaithful ∧
      (readTypes root).2 =
        (types.declarations.map Prod.fst).flatMap (problemsOf types root) := by
  have ht : types.IsFaithful := by
    obtain ⟨_, -, hread⟩ := bind_eq_ok.mp h
    exact faithful_of_read hread
  rw [readTypes, h]
  exact foldl_resolveDeclared_faithful ht ht rfl _ []

theorem readTypes_faithful (root : Node) : (readTypes root).1.IsFaithful := by
  cases h : (do TypeTable.read (← root.field? "types") : Reading TypeTable) with
  | error e =>
    rw [readTypes, h]
    exact builtin_faithful
  | ok types => exact (declared_readTypes h).2.1

/-- What a document declares stands under the key `types`. -/
theorem lookup_readTypes {root declaration : Node} {name : String}
    (h : (readTypes root).1.declarations.lookup name = some declaration) :
    ∃ types, root.field? "types" = .ok (some types) ∧
      types.doc.child? (.key name) = some declaration.doc ∧
      declaration.place = types.place ++ [.key name] := by
  cases hread : (do TypeTable.read (← root.field? "types") : Reading TypeTable) with
  | error e =>
    rw [readTypes, hread] at h
    cases h
  | ok t =>
    rw [(declared_readTypes hread).1] at h
    obtain ⟨types, htypes, hread⟩ := bind_eq_ok.mp hread
    cases types with
    | none =>
      cases hread
      cases h
    | some node =>
      obtain ⟨declarations, hentries, hread⟩ := bind_eq_ok.mp hread
      cases hread
      exact ⟨node, htypes, Node.lookup_entries hentries h⟩

/-- The declarations give no problem if and only if every declared name has a chain. -/
theorem errors_readTypes {root : Node} :
    (readTypes root).2 = [] ↔
      ∃ types, (do TypeTable.read (← root.field? "types")) = .ok types ∧
        ∀ name ∈ types.declarations.map Prod.fst,
          ∃ chain type, Unfolds types.declarations chain name type := by
  have hproblem {types : TypeTable} (ht : types.IsFaithful) (name : String) :
      problemsOf types root name = [] ↔
        ∃ chain type, Unfolds types.declarations chain name type := by
    rw [exists_comm]
    simp only [← resolve_ok_iff root ht]
    unfold problemsOf
    cases types.resolve name root with
    | error e => simp
    | ok r => exact ⟨fun _ => ⟨r.1, r.2, rfl⟩, fun _ => rfl⟩
  constructor
  · intro hnone
    cases h : (do TypeTable.read (← root.field? "types") : Reading TypeTable) with
    | error e =>
      rw [readTypes, h] at hnone
      cases hnone
    | ok types =>
      obtain ⟨_, hread⟩ := bind_eq_ok.mp h
      rw [(declared_readTypes h).2.2, List.flatMap_eq_nil_iff] at hnone
      exact ⟨types, rfl, fun name hname => (hproblem (faithful_of_read hread.2) name).mp
        (hnone name hname)⟩
  · rintro ⟨types, h, hall⟩
    obtain ⟨_, hread⟩ := bind_eq_ok.mp h
    rw [(declared_readTypes h).2.2, List.flatMap_eq_nil_iff]
    exact fun name hname => (hproblem (faithful_of_read hread.2) name).mpr (hall name hname)

end Description

end BlockIr
