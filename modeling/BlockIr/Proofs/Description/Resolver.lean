import Mathlib.Data.List.Chain
import BlockIr.Proofs.Description.Resolution

/-!
# Tables in use

A table that is used keeps what it has resolved, and marks the names that are being resolved. A
resolution may fail in the middle of a chain: the types that were resolved below it are kept, and
its marks are taken away on the way out. So no trace of a failure is left, and a table that was
used for a while answers as one that was not.

* `Resolver.resolve`: a resolution by a table in use. There is no bound on how deep resolutions
  nest but the one that is given; it is never reached if there are fewer declarations.
* `TypeTable.resolve_cyclic`: a chain that comes back to a name fails at the declaration of that
  name.
* `Resolver.answers_fresh`: every answer, after every history, is that of the fresh table.
* `TypeTable.resolve_exact`: which names have a type, and that the table always tells.
-/

namespace BlockIr

/-! ## Resolutions -/

/-- What is known after a resolution of `name`, whatever came of it. -/
def Known.keep (known : Known) (name : String) : Reading Ty → Known
  | .ok type => (name, type) :: known
  | .error _ => known

/-- A table in use. -/
structure Resolver where
  declarations : List (String × Node)
  /-- Builtin types and types resolved so far. -/
  known : Known
  /-- Names that are being resolved. -/
  active : List String

namespace Resolver

/-- A table that has not been used. -/
def fresh (t : TypeTable) : Resolver := ⟨t.declarations, t.known, []⟩

def enter (r : Resolver) (name : String) : Resolver := { r with active := name :: r.active }

/-- The end of a resolution, whatever comes of it. -/
def leave (r : Resolver) (name : String) (answer : Reading Ty) : Resolver :=
  { r with known := r.known.keep name answer, active := r.active.filter (· ≠ name) }

/-- Read the declaration of a name. The type that it is built on is resolved by `resolve`. -/
def decode (resolve : Resolver → String → Node → Option (Reading Ty × Resolver)) (r : Resolver)
    (name : String) (declaration : Node) : Option (Reading Ty × Resolver) :=
  match Declaration.read name declaration with
  | .error e => some (.error e, r)
  | .ok (.complete type) => some (.ok type, r)
  | .ok (.over child build) =>
    match child.text with
    | .error e => some (.error e, r)
    | .ok part => (resolve r part child).map fun (answer, r) => (answer >>= build, r)

/-- Resolve a name that stands at `site`. There is no answer if resolutions nest deeper than
`depth`. -/
def resolve : (depth : Nat) → (r : Resolver) → (name : String) → (site : Node) →
    Option (Reading Ty × Resolver)
  | 0, _, _, _ => none
  | depth + 1, r, name, site =>
    match r.known.lookup name, r.declarations.lookup name with
    | some type, _ => some (.ok type, r)
    | none, none => some (site.fail (.unknownType name), r)
    | none, some declaration =>
      if name ∈ r.active then some (declaration.fail (.typeCycle name), r)
      else
        (decode (resolve depth) (r.enter name) name declaration).map fun (answer, r) =>
          (answer, r.leave name answer)

/-! ## Requests -/

/-- What a table is asked for: the type of a name, or the type that a node names. -/
inductive Request where
  | resolve (name : String) (site : Node)
  | lookup (node : Node)

/-- The answer of a table that has not been used. -/
def Request.answeredBy (t : TypeTable) : Request → Reading Ty
  | .resolve name site => Prod.fst <$> t.resolve name site
  | .lookup node => t.lookup node

def answer (depth : Nat) (r : Resolver) : Request → Option (Reading Ty × Resolver)
  | .resolve name site => r.resolve depth name site
  | .lookup node =>
    match node.text with
    | .error e => some (.error e, r)
    | .ok name => r.resolve depth name node

/-- A table after some requests, whatever was answered. -/
def run (depth : Nat) (r : Resolver) (requests : List Request) : Option Resolver :=
  requests.foldlM (fun r request => (r.answer depth request).map Prod.snd) r

end Resolver

/-! ## Answers of a table in use -/

namespace TypeTable

variable {declarations : List (String × Node)} {known : Known} {active : List String} {left : Nat}
  {name : String}

theorem Faithful.keep (hk : Faithful declarations known) {answer : Reading Ty}
    (h : ∀ type, answer = .ok type → ∃ chain, Unfolds declarations chain name type) :
    Faithful declarations (known.keep name answer) := by
  cases answer with
  | error e => exact hk
  | ok type =>
    obtain ⟨chain, hname⟩ := h type rfl
    exact hk.cons hname

/-- While a declared name is not being resolved, there is a step left for it. -/
theorem Reached.left_ne_zero (h : Reached declarations left active name) {declaration : Node}
    (hdeclared : declarations.lookup name = some declaration) (hname : name ∉ active) :
    left ≠ 0 := by
  obtain ⟨before, after, hsplit, -⟩ := List.lookup_eq_some_iff.mp hdeclared
  have hmem : name ∈ declarations.map Prod.fst := by simp [hsplit]
  have hnodup : (name :: active).Nodup := List.nodup_cons.mpr ⟨hname, h.nodup⟩
  have hlength := (hnodup.subperm (List.cons_subset.mpr ⟨hmem, h.declared⟩)).length_le
  have hroom := h.room
  rw [List.length_cons, List.length_map] at hlength
  omega

end TypeTable

namespace Resolver

open TypeTable

variable {r : Resolver} {left depth : Nat} {name : String}

theorem leave_enter (hname : name ∉ r.active) (known : Known) (answer : Reading Ty) :
    ({ r.enter name with known } : Resolver).leave name answer =
      { r with known := known.keep name answer } := by
  have hactive : r.active.filter (· ≠ name) = r.active := by
    rw [List.filter_eq_self]
    intro a ha
    exact decide_eq_true fun heq => hname (heq ▸ ha)
  simp only [leave, enter, List.filter_cons, ne_eq, not_true_eq_false, decide_false,
    Bool.false_eq_true, if_false]
  exact congrArg (fun active => (⟨_, _, active⟩ : Resolver)) hactive

/-- A name that is known, not declared or being resolved is answered at once. -/
theorem resolve_stops (site : Node) (left : Nat)
    (hstop : ∀ declaration, r.known.lookup name = none →
      r.declarations.lookup name = some declaration → name ∈ r.active) :
    r.resolve (depth + 1) name site =
      some (Prod.fst <$> resolveWithin r.declarations left r.active name site r.known, r) := by
  unfold resolve resolveWithin
  cases hknown : r.known.lookup name with
  | some type => rfl
  | none =>
    cases hdeclared : r.declarations.lookup name with
    | none => rfl
    | some declaration =>
      simp only [if_pos (hstop declaration hknown hdeclared)]
      rfl

/-- A declaration is read by the rules, if what it is built on is resolved by them. -/
theorem decode_eq (step : Resolver → String → Node → Option (Reading Ty × Resolver))
    (r : Resolver) (left : Nat) {declaration : Node} (hk : Faithful r.declarations r.known)
    (hdeclared : r.declarations.lookup name = some declaration)
    (hstep : ∀ child build part, Declaration.read name declaration = .ok (.over child build) →
      child.text = .ok part →
      ∃ known, Faithful r.declarations known ∧
        step r part child =
          some (Prod.fst <$> resolveWithin r.declarations left r.active part child r.known,
            { r with known })) :
    ∃ known answer, Faithful r.declarations known ∧
      decode step r name declaration = some (answer, { r with known }) ∧
      (∀ type, answer = .ok type → ∃ chain, Unfolds r.declarations chain name type) ∧
      answer = Prod.fst <$> (do
        match ← Declaration.read name declaration with
        | .complete type => return (type, (name, type) :: r.known)
        | .over child build =>
          let (childType, known) ←
            resolveWithin r.declarations left r.active (← child.text) child r.known
          let type ← build childType
          return (type, (name, type) :: known)) := by
  unfold decode
  cases hread : Declaration.read name declaration with
  | error e => exact ⟨r.known, .error e, hk, rfl, nofun, rfl⟩
  | ok d =>
    rcases d with type | ⟨child, build⟩
    · refine ⟨r.known, .ok type, hk, rfl, ?_, rfl⟩
      intro _ htype
      cases htype
      exact ⟨_, .complete hdeclared hread⟩
    · cases hpart : child.text with
      | error e => exact ⟨r.known, .error e, hk, by simp only [hpart], nofun, by simp [hpart]⟩
      | ok part =>
        obtain ⟨known, hk', hstep⟩ := hstep child build part hread hpart
        cases hchild : resolveWithin r.declarations left r.active part child r.known with
        | error e =>
          rw [hchild] at hstep
          exact ⟨known, .error e, hk', by simp only [hpart, hstep]; rfl, nofun,
            by simp only [hpart, hchild, ok_bind]; rfl⟩
        | ok result =>
          obtain ⟨childType, known'⟩ := result
          rw [hchild] at hstep
          refine ⟨known, build childType, hk', by simp only [hpart, hstep]; rfl, ?_, ?_⟩
          · intro type hbuild
            obtain ⟨⟨chain, hname⟩, -⟩ :=
              unfolds_of_resolves hk (resolves_of_resolveWithin hchild)
            exact ⟨name :: chain, .built hdeclared hread hpart hname hbuild⟩
          · simp only [hpart, hchild, ok_bind]
            cases build childType <;> rfl

/-- A resolution by a table in use gives what the rules give. The table has then some more types
to answer with, and nothing is being resolved that was not before. -/
theorem resolve_eq (h : Reached r.declarations left r.active name)
    (hk : Faithful r.declarations r.known) (hdepth : left < depth) (site : Node) :
    ∃ known, Faithful r.declarations known ∧
      r.resolve depth name site =
        some (Prod.fst <$> resolveWithin r.declarations left r.active name site r.known,
          { r with known }) := by
  obtain ⟨depth, rfl⟩ := Nat.exists_eq_succ_of_ne_zero (Nat.ne_zero_of_lt hdepth)
  induction left generalizing r name site depth with
  | zero =>
    refine ⟨r.known, hk, resolve_stops site 0 ?_⟩
    intro declaration _ hdeclared
    by_contra hname
    exact h.left_ne_zero hdeclared hname rfl
  | succ left ih =>
    by_cases hstop : ∀ declaration, r.known.lookup name = none →
        r.declarations.lookup name = some declaration → name ∈ r.active
    · exact ⟨r.known, hk, resolve_stops site (left + 1) hstop⟩
    · push Not at hstop
      obtain ⟨declaration, hknown, hdeclared, hname⟩ := hstop
      obtain ⟨known, answer, hk', hdecode, hunfolds, hanswer⟩ :=
        decode_eq (resolve depth) (r.enter name) left hk hdeclared
          fun child build part hread hpart => by
            have hpart := h.step hname ⟨declaration, child, build, hdeclared, hread, hpart⟩
            obtain ⟨depth, rfl⟩ := Nat.exists_eq_succ_of_ne_zero (show depth ≠ 0 by omega)
            exact ih (r := r.enter name) hpart hk child depth (by omega)
      refine ⟨known.keep name answer, hk'.keep hunfolds, ?_⟩
      unfold resolve resolveWithin
      simp only [hknown, hdeclared, if_neg hname, hdecode, Option.map_some]
      rw [leave_enter hname, hanswer]
      rfl

/-! ## Histories -/

/-- A table with the declarations of `t`, whatever has been asked of it. -/
structure Idle (t : TypeTable) (r : Resolver) : Prop where
  declarations : r.declarations = t.declarations
  active : r.active = []
  faithful : Faithful t.declarations r.known

variable {t : TypeTable}

theorem idle_fresh (ht : t.IsFaithful) : Idle t (fresh t) := ⟨rfl, rfl, ht⟩

namespace Idle

theorem resolve (h : Idle t r) (ht : t.IsFaithful) (hdepth : t.declarations.length < depth)
    (name : String) (site : Node) :
    ∃ r', Idle t r' ∧
      r.resolve depth name site = some (Prod.fst <$> t.resolve name site, r') := by
  obtain ⟨declarations, known, active⟩ := r
  obtain rfl : declarations = t.declarations := h.declarations
  obtain rfl : active = [] := h.active
  obtain ⟨known', hk', hresolve⟩ :=
    resolve_eq (r := ⟨t.declarations, known, []⟩) (reached_start t.declarations name) h.faithful
      hdepth site
  have hfst : Prod.fst <$> t.resolve name site =
      Prod.fst <$> resolveWithin t.declarations t.declarations.length [] name site t.known := by
    rw [TypeTable.resolve]
    cases resolveWithin t.declarations t.declarations.length [] name site t.known <;> rfl
  refine ⟨⟨t.declarations, known', []⟩, ⟨rfl, rfl, hk'⟩, ?_⟩
  rw [hresolve, hfst, resolveWithin_congr (reached_start t.declarations name) h.faithful ht]

/-- A request is answered as by a table that has not been used. -/
theorem answer (h : Idle t r) (ht : t.IsFaithful) (hdepth : t.declarations.length < depth)
    (request : Request) :
    ∃ r', Idle t r' ∧ r.answer depth request = some (request.answeredBy t, r') := by
  cases request with
  | resolve name site => exact h.resolve ht hdepth name site
  | lookup node =>
    have hlookup : t.lookup node = node.text >>= fun name => Prod.fst <$> t.resolve name node :=
      rfl
    simp only [Resolver.answer, Request.answeredBy, hlookup]
    cases node.text with
    | error e => exact ⟨r, h, rfl⟩
    | ok name => exact h.resolve ht hdepth name node

theorem run (h : Idle t r) (ht : t.IsFaithful) (hdepth : t.declarations.length < depth)
    (history : List Request) : ∃ r', r.run depth history = some r' ∧ Idle t r' := by
  induction history generalizing r with
  | nil => exact ⟨r, rfl, h⟩
  | cons request history ih =>
    obtain ⟨r', h', hanswer⟩ := h.answer ht hdepth request
    obtain ⟨r'', hrun, h''⟩ := ih h'
    refine ⟨r'', ?_, h''⟩
    rw [Resolver.run, List.foldlM_cons, hanswer]
    exact hrun

end Idle

/-- Every request is answered, after every history, as by a table that has not been used. -/
theorem answers_fresh (ht : t.IsFaithful) (hdepth : t.declarations.length < depth)
    (history : List Request) :
    ∃ r, (fresh t).run depth history = some r ∧
      ∀ request, ∃ r', r.answer depth request = some (request.answeredBy t, r') := by
  obtain ⟨r, hrun, h⟩ := (idle_fresh ht).run ht hdepth history
  refine ⟨r, hrun, fun request => ?_⟩
  obtain ⟨r', -, hanswer⟩ := h.answer ht hdepth request
  exact ⟨r', hanswer⟩

end Resolver

/-! ## Chains that come back -/

namespace TypeTable

variable {declarations : List (String × Node)} {known : Known} {active path : List String}
  {left : Nat} {name first : String} {t : TypeTable}

/-- The declarations of a path are built on each other, and the last one on `first`. -/
abbrev LeadsTo (declarations : List (String × Node)) (path : List String) (first : String) :
    Prop :=
  (path ++ [first]).IsChain (BuiltOn declarations)

theorem transGen_of_leadsTo (h : LeadsTo declarations path first) {a : String} (ha : a ∈ path) :
    Relation.TransGen (BuiltOn declarations) a first := by
  have hpairwise := List.isChain_iff_pairwise.mp (h.imp fun _ _ => Relation.TransGen.single)
  exact (List.pairwise_append.mp hpairwise).2.2 a ha first (List.mem_singleton_self first)

/-- No name of a chain that comes back stands for a type. -/
theorem not_unfolds_of_leadsTo (h : LeadsTo declarations path first) (hfirst : first ∈ path)
    {a : String} (ha : a ∈ path) : ¬ ∃ chain type, Unfolds declarations chain a type := by
  rintro ⟨chain, type, hname⟩
  obtain ⟨chain', type', h', -⟩ := hname.of_builtOn (transGen_of_leadsTo h ha)
  obtain ⟨chain'', type'', h'', hlt⟩ := h'.of_builtOn (transGen_of_leadsTo h hfirst)
  obtain ⟨rfl, -⟩ := h''.unique h'
  exact Nat.lt_irrefl _ hlt

theorem declared_of_leadsTo (h : LeadsTo declarations path first) :
    path ⊆ declarations.map Prod.fst := by
  intro a ha
  obtain ⟨_, ⟨_, _, _, hdeclared, -⟩, -⟩ :=
    Relation.TransGen.head'_iff.mp (transGen_of_leadsTo h ha)
  obtain ⟨before, after, rfl, -⟩ := List.lookup_eq_some_iff.mp hdeclared
  simp

/-- The rest of a chain that comes back to a name that is being resolved then. -/
theorem resolveWithin_leadsTo {declaration : Node}
    (hdeclared : declarations.lookup first = some declaration)
    (h : LeadsTo declarations path first) (hname : (path ++ [first]).head? = some name)
    (hfirst : first ∈ path ++ active) (hnodup : (path ++ active).Nodup)
    (hleft : path.length ≤ left) (hfirstKnown : known.lookup first = none)
    (hknown : ∀ a ∈ path, known.lookup a = none) (site : Node) :
    resolveWithin declarations left active name site known =
      declaration.fail (.typeCycle first) := by
  induction path generalizing left active name site with
  | nil =>
    cases hname
    unfold resolveWithin
    simp only [hfirstKnown, hdeclared, if_pos (show first ∈ active from hfirst)]
  | cons a path ih =>
    cases hname
    obtain ⟨left, rfl⟩ := Nat.exists_eq_succ_of_ne_zero (show left ≠ 0 by
      rw [List.length_cons] at hleft
      omega)
    obtain ⟨part, tail, hpart⟩ : ∃ part tail, path ++ [first] = part :: tail :=
      List.exists_cons_of_ne_nil (by simp)
    have hchain : (a :: part :: tail).IsChain (BuiltOn declarations) := hpart ▸ h
    obtain ⟨⟨_, child, build, hnamed, hread, htext⟩, hrest⟩ := List.isChain_cons_cons.mp hchain
    rw [← hpart] at hrest
    have hactive : a ∉ active := fun hmem =>
      (List.nodup_cons.mp hnodup).1 (List.mem_append_right path hmem)
    have hchild := ih hrest (by rw [hpart]; rfl) (List.perm_middle.mem_iff.mpr hfirst)
      (List.perm_middle.nodup_iff.mpr hnodup) (Nat.le_of_succ_le_succ hleft)
      (fun b hb => hknown b (List.mem_cons_of_mem a hb)) child
    unfold resolveWithin
    simp only [hknown a List.mem_cons_self, hnamed, if_neg hactive, hread, ok_bind, htext, hchild]
    rfl

/-- A chain that comes back to a name fails at the declaration of that name. -/
theorem resolve_cyclic (ht : t.IsFaithful) (h : LeadsTo t.declarations (name :: path) first)
    (hfirst : first ∈ name :: path) (hnodup : (name :: path).Nodup) (site : Node) :
    ∃ declaration, t.declarations.lookup first = some declaration ∧
      t.resolve name site = declaration.fail (.typeCycle first) := by
  obtain ⟨_, ⟨declaration, _, _, hdeclared, -⟩, -⟩ :=
    Relation.TransGen.head'_iff.mp (transGen_of_leadsTo h hfirst)
  have hknown (a : String) (ha : a ∈ name :: path) : t.known.lookup a = none :=
    ht.lookup_eq_none (not_unfolds_of_leadsTo h hfirst ha)
  have hleft := (hnodup.subperm (declared_of_leadsTo h)).length_le
  rw [List.length_map] at hleft
  refine ⟨declaration, hdeclared, ?_⟩
  have hresolve := resolveWithin_leadsTo hdeclared h rfl (List.mem_append_left [] hfirst)
    (by rwa [List.append_nil]) hleft (hknown first hfirst) hknown site
  rw [TypeTable.resolve, hresolve]
  rfl

/-- A name has a type if and only if its chain of declarations comes to an end, and a chain that
comes back fails where it does. Resolutions nest no deeper than there are declarations, and a
table in use answers as one that has not been used. -/
theorem resolve_exact {types : Option Node} (ht : TypeTable.read types = .ok t) :
    (∀ name site type, Prod.fst <$> t.resolve name site = .ok type ↔
        ∃ chain, chain.Nodup ∧ Unfolds t.declarations chain name type) ∧
      (∀ name path first site, (name :: path).Nodup → first ∈ name :: path →
        LeadsTo t.declarations (name :: path) first →
        ∃ declaration, t.declarations.lookup first = some declaration ∧
          Prod.fst <$> t.resolve name site = declaration.fail (.typeCycle first)) ∧
      ∀ depth, t.declarations.length < depth → ∀ history, ∃ r,
        (Resolver.fresh t).run depth history = some r ∧
        ∀ request, ∃ r', r.answer depth request = some (request.answeredBy t, r') := by
  have hfaithful := faithful_of_read ht
  refine ⟨fun name site type => ?_, fun name path first site hnodup hfirst h => ?_,
    fun depth hdepth history => Resolver.answers_fresh hfaithful hdepth history⟩
  · have hok : Prod.fst <$> t.resolve name site = .ok type ↔
        ∃ t', t.resolve name site = .ok (type, t') := by
      cases t.resolve name site with
      | error e => simp
      | ok result =>
        obtain ⟨type', t'⟩ := result
        simp
    rw [hok, resolve_ok_iff site hfaithful]
    exact exists_congr fun chain => ⟨fun hname => ⟨hname.nodup, hname⟩, And.right⟩
  · obtain ⟨declaration, hdeclared, hresolve⟩ := resolve_cyclic hfaithful h hfirst hnodup site
    exact ⟨declaration, hdeclared, by rw [hresolve]; rfl⟩

/-- A builtin type is declared anew, a list of it lacks its length, and two types are built on
each other. -/
def knottedTypes : Node :=
  ⟨.map [("u8", .map [("kind", .text "int"), ("bits", .int 16)]),
    ("row", .map [("kind", .text "array"), ("child", .text "u8")]),
    ("loop", .map [("kind", .text "pointer"), ("child", .text "back")]),
    ("back", .map [("kind", .text "maybe"), ("child", .text "loop")])], [.key "types"]⟩

theorem resolve_knotted :
    ∃ t, TypeTable.read (some knottedTypes) = .ok t ∧
      (∃ chain, chain.Nodup ∧ Unfolds t.declarations chain "u8" (.int "u8" 16 false)) ∧
      (∃ declaration, t.declarations.lookup "loop" = some declaration ∧
        Prod.fst <$> t.resolve "loop" knottedTypes = declaration.fail (.typeCycle "loop")) ∧
      ∃ r, (Resolver.fresh t).run 5 [.resolve "row" knottedTypes, .resolve "back" knottedTypes] =
          some r ∧
        r.known.lookup "u8" = some (.int "u8" 16 false) ∧
        ∃ r', r.answer 5 (.resolve "row" knottedTypes) =
          some (.error (.fault [.key "types", .key "row"] (.missingField "length")), r') := by
  obtain ⟨t, ht⟩ : ∃ t, TypeTable.read (some knottedTypes) = .ok t := ⟨_, rfl⟩
  obtain ⟨hunfolds, hcyclic, huse⟩ := resolve_exact ht
  obtain ⟨r, hrun, hanswer⟩ :=
    huse 5 (by cases ht; decide) [.resolve "row" knottedTypes, .resolve "back" knottedTypes]
  refine ⟨t, ht, ?_, ?_, r, hrun, ?_, ?_⟩
  · refine (hunfolds "u8" knottedTypes (.int "u8" 16 false)).mp ?_
    cases ht
    decide +kernel
  · refine hcyclic "loop" ["back"] "loop" knottedTypes (by decide) (by decide) ?_
    cases ht
    exact .cons_cons ⟨_, _, _, rfl, rfl, rfl⟩
      (.cons_cons ⟨_, _, _, rfl, rfl, rfl⟩ (.singleton _))
  · have hkept : ((Resolver.fresh t).run 5 [.resolve "row" knottedTypes,
        .resolve "back" knottedTypes]).map (fun r => r.known.lookup "u8") =
          some (some (.int "u8" 16 false)) := by
      cases ht
      decide +kernel
    rw [hrun] at hkept
    exact Option.some.inj hkept
  · have hrow : Resolver.Request.answeredBy t (.resolve "row" knottedTypes) =
        .error (.fault [.key "types", .key "row"] (.missingField "length")) := by
      cases ht
      decide +kernel
    rw [← hrow]
    exact hanswer _

end TypeTable

end BlockIr
