import BlockIr.Description.Load
import BlockIr.Proofs.Description.Node

/-!
# Types of a description

Whatever a description declares, the types its table gives have a known shape, and their bit
widths and lengths are indexes.

* `TypeTable.declarable_of_lookup`: the types of a sound table.
* `readTypes_sound`: the table of a description is sound.
-/

namespace BlockIr

/-- Types of known shapes whose numbers are indexes. -/
def Ty.Declarable : Ty → Prop
  | .plain .. | .aggregate .. => True
  | .int _ bits _ | .float _ bits => IsIndex bits
  | .array _ child length => child.Declarable ∧ IsIndex length
  | .pointer _ child _ | .maybe _ child | .errorUnion _ child | .declared _ child =>
    child.Declarable
  | .unrecognised .. => False

/-- What a declaration gives, once the type it is built on is declarable. -/
def Declaration.Sound : Declaration → Prop
  | .complete type => type.Declarable
  | .over _ build => ∀ child type, child.Declarable → build child = .ok type → type.Declarable

theorem Declaration.sound_of_read {key : String} {node : Node} {d : Declaration}
    (h : Declaration.read key node = .ok d) : d.Sound := by
  obtain ⟨_, -, h⟩ := bind_eq_ok.mp h
  obtain ⟨shape, -, h⟩ := bind_eq_ok.mp h
  obtain ⟨name, -, h⟩ := bind_eq_ok.mp h
  unfold Declaration.readShape at h
  cases shape with
  | plain kind =>
    cases h
    exact trivial
  | int =>
    obtain ⟨bits, hbits, h⟩ := bind_eq_ok.mp h
    obtain ⟨signed, -, h⟩ := bind_eq_ok.mp h
    cases h
    exact Node.isIndex_of_id hbits
  | float =>
    obtain ⟨bits, hbits, h⟩ := bind_eq_ok.mp h
    cases h
    exact Node.isIndex_of_id hbits
  | pointer =>
    obtain ⟨_, -, h⟩ := bind_eq_ok.mp h
    cases h
    intro child type hchild h
    obtain ⟨isConst, -, h⟩ := bind_eq_ok.mp h
    cases h
    exact hchild
  | array =>
    obtain ⟨_, -, h⟩ := bind_eq_ok.mp h
    cases h
    intro child type hchild h
    obtain ⟨length, hlength, h⟩ := bind_eq_ok.mp h
    cases h
    exact ⟨hchild, Node.isIndex_of_id hlength⟩
  | maybe | errorUnion | declared =>
    obtain ⟨_, -, h⟩ := bind_eq_ok.mp h
    cases h
    intro child type hchild h
    cases h
    exact hchild
  | aggregate kind =>
    obtain ⟨_, -, h⟩ := bind_eq_ok.mp h
    obtain ⟨_, -, h⟩ := bind_eq_ok.mp h
    cases h
    exact trivial

/-- Only declarable types are known. -/
def Known.Sound (known : Known) : Prop := ∀ entry ∈ known, entry.2.Declarable

theorem Known.Sound.lookup {known : Known} (hk : known.Sound) {name : String} {type : Ty}
    (h : known.lookup name = some type) : type.Declarable := by
  obtain ⟨_, _, rfl, -⟩ := List.lookup_eq_some_iff.mp h
  exact hk (name, type) (by simp)

theorem Known.Sound.cons {known : Known} (hk : known.Sound) {name : String} {type : Ty}
    (h : type.Declarable) : Known.Sound ((name, type) :: known) :=
  List.forall_mem_cons.mpr ⟨h, hk⟩

namespace TypeTable

theorem resolveWithin_known {declarations : List (String × Node)} {left : Nat}
    {active : List String} {name : String} {site : Node} {known : Known} {t : Ty}
    (h : known.lookup name = some t) :
    resolveWithin declarations left active name site known = .ok (t, known) := by
  unfold resolveWithin
  rw [h]

/-- What a resolution that succeeds has done, while the types `active` are being resolved. -/
inductive Resolves (declarations : List (String × Node)) :
    List String → String → Known → Ty → Known → Prop where
  | known {active : List String} {name : String} {known : Known} {type : Ty} :
    known.lookup name = some type → Resolves declarations active name known type known
  | complete {active : List String} {name : String} {known : Known} {declaration : Node}
    {type : Ty} : known.lookup name = none → declarations.lookup name = some declaration →
    name ∉ active → Declaration.read name declaration = .ok (.complete type) →
    Resolves declarations active name known type ((name, type) :: known)
  | built {active : List String} {name : String} {known known' : Known} {declaration child : Node}
    {build : Ty → Reading Ty} {part : String} {childType type : Ty} :
    known.lookup name = none → declarations.lookup name = some declaration → name ∉ active →
    Declaration.read name declaration = .ok (.over child build) → child.text = .ok part →
    Resolves declarations (name :: active) part known childType known' →
    build childType = .ok type →
    Resolves declarations active name known type ((name, type) :: known')

theorem resolves_of_resolveWithin {declarations : List (String × Node)} {left : Nat}
    {active : List String} {name : String} {site : Node} {known known' : Known} {type : Ty}
    (h : resolveWithin declarations left active name site known = .ok (type, known')) :
    Resolves declarations active name known type known' := by
  induction left generalizing active name site known known' type with
  | zero =>
    unfold resolveWithin at h
    split at h
    · rename_i hknown
      cases h
      exact .known hknown
    · cases h
    · split at h <;> cases h
  | succ left ih =>
    unfold resolveWithin at h
    split at h
    · rename_i hknown
      cases h
      exact .known hknown
    · cases h
    · rename_i declaration hknown hdeclared
      split at h
      · cases h
      · rename_i hactive
        obtain ⟨d, hread, h⟩ := bind_eq_ok.mp h
        rcases d with type | ⟨child, build⟩
        · cases h
          exact .complete hknown hdeclared hactive hread
        · obtain ⟨part, hpart, h⟩ := bind_eq_ok.mp h
          obtain ⟨⟨childType, known''⟩, hchild, h⟩ := bind_eq_ok.mp h
          obtain ⟨built, hbuild, h⟩ := bind_eq_ok.mp h
          cases h
          exact .built hknown hdeclared hactive hread hpart (ih hchild) hbuild

/-- What a resolution gives is declarable, and so are the types that are known after it. -/
theorem sound_of_resolveWithin {declarations : List (String × Node)} {left : Nat}
    {active : List String} {name : String} {site : Node} {known known' : Known} {type : Ty}
    (hk : known.Sound)
    (h : resolveWithin declarations left active name site known = .ok (type, known')) :
    type.Declarable ∧ known'.Sound := by
  have hsteps := resolves_of_resolveWithin h
  clear h
  induction hsteps with
  | known hknown => exact ⟨hk.lookup hknown, hk⟩
  | complete _ _ _ hread =>
    have htype := Declaration.sound_of_read hread
    exact ⟨htype, hk.cons htype⟩
  | built _ _ _ hread _ _ hbuild ih =>
    obtain ⟨hchild, hk'⟩ := ih hk
    have htype := Declaration.sound_of_read hread _ _ hchild hbuild
    exact ⟨htype, hk'.cons htype⟩

/-- Only declarable types are in the table. -/
def Sound (t : TypeTable) : Prop := t.known.Sound

theorem Sound.resolve {t t' : TypeTable} (ht : t.Sound) {name : String} {site : Node} {type : Ty}
    (h : t.resolve name site = .ok (type, t')) : type.Declarable ∧ t'.Sound := by
  obtain ⟨⟨_, known⟩, hresolve, h⟩ := bind_eq_ok.mp h
  cases h
  exact sound_of_resolveWithin ht hresolve

theorem declarable_of_lookup {t : TypeTable} (ht : t.Sound) {node : Node} {type : Ty}
    (h : t.lookup node = .ok type) : type.Declarable := by
  obtain ⟨name, -, h⟩ := bind_eq_ok.mp h
  obtain ⟨⟨_, t'⟩, hresolve, h⟩ := bind_eq_ok.mp h
  cases h
  exact (ht.resolve hresolve).1

theorem builtin_sound : builtin.Sound := by
  intro entry hentry
  obtain ⟨type, htype, rfl⟩ := List.mem_map.mp hentry
  have hall : ∀ type ∈ Ty.builtins, type.Declarable := by
    simp [Ty.builtins, Ty.ofPlain, Ty.ofInt, Ty.ofFloat, Ty.Declarable, IsIndex,
      Binary64.maxSafe]
  exact hall type htype

theorem ofDeclarations_sound (declarations : List (String × Node)) :
    (ofDeclarations declarations).Sound :=
  fun entry hentry => builtin_sound entry (List.mem_filter.mp hentry).1

theorem sound_of_read {node : Option Node} {t : TypeTable} (h : TypeTable.read node = .ok t) :
    t.Sound := by
  cases node with
  | none =>
    cases h
    exact builtin_sound
  | some node =>
    obtain ⟨declarations, -, h⟩ := bind_eq_ok.mp h
    cases h
    exact ofDeclarations_sound declarations

end TypeTable

namespace Description

theorem resolveDeclared_sound {root : Node} {state : TypeTable × List LoadError}
    (h : state.1.Sound) (name : String) : (resolveDeclared root state name).1.Sound := by
  unfold resolveDeclared
  split
  · exact h
  · rename_i hresolve
    exact (h.resolve hresolve).2

/-- The type table of every description is sound. -/
theorem readTypes_sound (root : Node) : (readTypes root).1.Sound := by
  unfold readTypes
  split
  · exact TypeTable.builtin_sound
  · rename_i types htypes
    obtain ⟨_, -, htypes⟩ := bind_eq_ok.mp htypes
    exact List.foldlRecOn
      (motive := fun state : TypeTable × List LoadError => state.1.Sound) _ _
      (TypeTable.sound_of_read htypes) fun _ h name _ => resolveDeclared_sound h name

end Description

end BlockIr
