import BlockIr.Proofs.Description.Isolation
import BlockIr.Proofs.Description.Transcript

/-!
# Where problems are

A node keeps the way from the root to it, and every problem is reported with the way to a node.
So the ways that are reported lead to nodes of the document: each reader goes from a node of the
document to nodes of the document only, whether it follows a type to another declaration or keeps
the node of a value until every instruction is known.

* `Node.Within`: nodes that stand in a document where their places say.
* `LoadError.ArisesIn`: problems that a reader finds at such a node.
* `Matching.within`: a reading compared with itself, so that what holds step by step of two
  readings holds of one.
* `load_locates`: every problem of a load is at a node of the document.
-/

namespace BlockIr

/-! ## Texts of places -/

theorem Step.extend_ne_empty {text : String} (h : text ≠ "") (step : Step) :
    step.extend text ≠ "" := by
  cases step with
  | key k =>
    rw [extend, if_neg h]
    simp [String.append_eq_empty_iff]
  | item position =>
    rw [extend]
    simp [String.append_eq_empty_iff]

theorem Place.text_concat (p : Place) (step : Step) : text (p ++ [step]) = step.extend p.text :=
  List.foldl_concat _ _ _ _

/-! ## Nodes of a document -/

/-- A node below the root of a document, which stands where its place says. Its place has a text,
so a problem with it has a location. -/
structure Node.Within (doc : Doc) (x : Node) : Prop where
  addressed : doc.at? x.place = some x.doc
  shown : x.place.text ≠ ""

section Within

variable {doc : Doc} {x y : Node} {key : String}

theorem Doc.at?_child {place : Place} {d d' : Doc} {step : Step} (h : doc.at? place = some d)
    (hstep : d.child? step = some d') : doc.at? (place ++ [step]) = some d' := by
  rw [at?_append, h]
  simpa [at?] using hstep

theorem Node.Within.child (h : x.Within doc) {d : Doc} (step : Step)
    (hstep : x.doc.child? step = some d) : Within doc ⟨d, x.place ++ [step]⟩ where
  addressed := Doc.at?_child h.addressed hstep
  shown := by
    rw [Place.text_concat]
    exact Step.extend_ne_empty h.shown step

theorem Node.within_of_root {d : Doc} (hkey : key ≠ "") (h : doc.get? key = some d) :
    Within doc ⟨d, [.key key]⟩ :=
  ⟨Doc.at?_child (Doc.at?_nil doc) h, hkey⟩

/-- The items of a list under a key are nodes two steps further. -/
theorem Node.Within.mem_listOrEmpty (h : x.Within doc) {items : List Node}
    (hitems : x.listOrEmpty key = .ok items) (hy : y ∈ items) :
    y.Within doc ∧ ∃ i, y.place = x.place ++ [.key key, .item i] := by
  obtain ⟨entry, hentry, hitems⟩ := bind_eq_ok.mp hitems
  cases entry with
  | none =>
    cases hitems
    cases hy
  | some entry =>
    obtain ⟨hkey, hplace⟩ := field?_eq_some hentry
    obtain ⟨i, hi, hy⟩ := mem_list hitems hy
    obtain ⟨d, place⟩ := y
    obtain rfl : place = x.place ++ [.key key] ++ [.item i] := hy.trans (by rw [hplace])
    exact ⟨(h.child _ hkey).child _ hi, i, List.append_assoc _ _ _⟩

end Within

/-! ## Problems of a document -/

/-- A problem that a reader has found at a node of a document. Only the root has no location. -/
inductive LoadError.ArisesIn (doc : Doc) : LoadError → Prop where
  | fault {place : Place} {cause : Cause} {d : Doc} : doc.at? place = some d →
    (place.text = "" → place = []) → cause.FoundAt d → ArisesIn doc (.fault place cause)

theorem LoadError.arisesIn_root {doc : Doc} {cause : Cause} (h : cause.FoundAt doc) :
    ArisesIn doc (.fault [] cause) :=
  .fault (Doc.at?_nil doc) (fun _ => rfl) h

theorem LoadError.location_fault {place : Place} {cause : Cause}
    (hroot : place.text = "" → place = []) :
    (fault place cause).location = none ∧ place = [] ∨
      (fault place cause).location = some place.text ∧ place ≠ [] := by
  rw [location]
  split
  · rename_i hnone
    exact .inl ⟨rfl, hroot hnone⟩
  · rename_i hsome
    refine .inr ⟨rfl, ?_⟩
    rintro rfl
    exact hsome rfl

namespace Matching

/-- A reading compared with itself, on the nodes of a document. -/
def within (doc : Doc) : Matching where
  node x y := y = x ∧ x.Within doc
  problem e _ := e.ArisesIn doc
  doc := by
    rintro x _ ⟨rfl, -⟩
    rfl
  fault := by
    rintro x _ ⟨-, h⟩ cause hfound
    exact .fault h.addressed (fun hnone => absurd hnone h.shown) hfound
  child := by
    rintro x _ d step ⟨rfl, h⟩ hstep
    exact ⟨rfl, h.child step hstep⟩

variable {doc : Doc} {x y : Node}

theorem node_within (h : x.Within doc) : (within doc).node x x := ⟨rfl, h⟩

theorem Alike.arises {α : Type} {R : α → α → Prop} {r : Reading α} {e : LoadError}
    (h : (within doc).Alike R r r) (hr : r = .error e) : e.ArisesIn doc := by
  subst hr
  cases h with
  | error he => exact he

/-! ## Types -/

/-- Declarations that make the same of types which nodes that match name. -/
inductive Declares (M : Matching) : Declaration → Declaration → Prop where
  | complete (type : Ty) : Declares M (.complete type) (.complete type)
  | around {child child' : Node} {build build' : Ty → Reading Ty} : M.node child child' →
    (∀ type, M.Alike Eq (build type) (build' type)) →
    Declares M (.over child build) (.over child' build')

variable {M : Matching}

theorem shape (h : M.node x y) (name : String) (shape : Shape) :
    M.Alike M.Declares (Declaration.readShape x name shape)
      (Declaration.readShape y name shape) := by
  cases shape with
  | plain kind => exact .ok (.complete _)
  | int =>
    refine (id h).bindEq fun bits => ?_
    refine (boolOr h).bindEq fun signed => ?_
    exact .ok (.complete _)
  | float =>
    refine (id h).bindEq fun bits => ?_
    exact .ok (.complete _)
  | pointer =>
    refine (field h).bind fun child child' hchild => ?_
    refine .ok (.around hchild fun type => ?_)
    exact (boolOr h).bindEq fun isConst => .ok rfl
  | array =>
    refine (field h).bind fun child child' hchild => ?_
    refine .ok (.around hchild fun type => ?_)
    exact (id h).bindEq fun length => .ok rfl
  | maybe | errorUnion | declared =>
    refine (field h).bind fun child child' hchild => ?_
    exact .ok (.around hchild fun type => .ok rfl)
  | aggregate kind =>
    refine (listOrEmpty h).bind fun items items' hitems => ?_
    refine (Alike.mapMEq hitems fun _ _ hitem => text hitem).bindEq fun fields => ?_
    exact .ok (.complete _)

theorem declaration (key : String) (h : M.node x y) :
    M.Alike M.Declares (Declaration.read key x) (Declaration.read key y) := by
  refine (field h).bind fun _ _ hkind => ?_
  refine (word hkind .unknownKind fun _ => trivial).bindEq fun shape => ?_
  refine (textOr h).bindEq fun name => ?_
  exact Matching.shape h name shape

/-- The problems of a resolution are those of declarations, or of the name at its site. -/
theorem resolveWithin {declarations : List (String × Node)}
    (hdeclared : ∀ name declaration, declarations.lookup name = some declaration →
      M.node declaration declaration) {left : Nat} {active : List String} {name : String}
    {site site' : Node} {known : Known}
    (hsite : M.problem (.fault site.place (.unknownType name))
      (.fault site'.place (.unknownType name))) :
    M.Alike Eq (TypeTable.resolveWithin declarations left active name site known)
      (TypeTable.resolveWithin declarations left active name site' known) := by
  induction left generalizing active name site site' known with
  | zero =>
    unfold TypeTable.resolveWithin
    split
    · exact .ok rfl
    · exact .error hsite
    · rename_i declaration _ hlookup
      have hnode := hdeclared _ _ hlookup
      split <;> exact fail hnode _ trivial
  | succ left ih =>
    unfold TypeTable.resolveWithin
    split
    · exact .ok rfl
    · exact .error hsite
    · rename_i declaration _ hlookup
      have hnode := hdeclared _ _ hlookup
      split
      · exact fail hnode _ trivial
      · refine (Matching.declaration name hnode).bind fun d d' hd => ?_
        cases hd with
        | complete type => exact .ok rfl
        | around hchild hbuild =>
          refine (text hchild).bindEq fun part => ?_
          refine (ih (M.fault hchild _ trivial)).bindEq fun result => ?_
          refine (hbuild result.1).bindEq fun type => ?_
          exact .ok rfl

variable {t : TypeTable} (h : ∀ name declaration,
  t.declarations.lookup name = some declaration → M.node declaration declaration)

include h

theorem resolve {name : String} {site site' : Node}
    (hsite : M.problem (.fault site.place (.unknownType name))
      (.fault site'.place (.unknownType name))) :
    M.Alike Eq (t.resolve name site) (t.resolve name site') :=
  (resolveWithin h hsite).bindEq fun _ => .ok rfl

theorem tables : M.Tables t t := by
  intro x y hnode
  refine (text hnode).bindEq fun name => ?_
  exact (resolve h (M.fault hnode _ trivial)).bindEq fun _ => .ok rfl

end Matching

namespace Description

open Matching

variable {doc : Doc} {e : LoadError}

/-! ## The type table -/

/-- What is asked of the root is answered by a node of the document, or is a problem of the
root. -/
theorem within_of_field? {key : String} (hkey : key ≠ "") {x : Node}
    (h : (Node.root doc).field? key = .ok (some x)) : x.Within doc := by
  obtain ⟨hstep, hplace⟩ := Node.field?_eq_some h
  obtain ⟨d, place⟩ := x
  cases hplace
  exact Node.within_of_root hkey hstep

theorem arises_of_field? {key : String} (h : (Node.root doc).field? key = .error e) :
    e.ArisesIn doc := by
  unfold Node.field? at h
  split at h
  · cases h
  · cases h
    exact LoadError.arisesIn_root trivial

theorem arises_of_read {types : Option Node} (htypes : ∀ x ∈ types, x.Within doc)
    (h : TypeTable.read types = .error e) : e.ArisesIn doc := by
  cases types with
  | none => cases h
  | some node =>
    rcases bind_eq_error.mp h with h | ⟨_, -, h⟩
    · unfold Node.entries at h
      split at h
      · cases h
      · cases h
        exact (within doc).fault (node_within (htypes node rfl)) _ trivial
    · cases h

/-- The declarations stand in the document. -/
theorem within_of_declared {name : String} {declaration : Node}
    (h : (readTypes (.root doc)).1.declarations.lookup name = some declaration) :
    declaration.Within doc := by
  obtain ⟨types, htypes, hstep, hplace⟩ := lookup_readTypes h
  obtain ⟨d, place⟩ := declaration
  cases hplace
  exact (within_of_field? (by decide) htypes).child _ hstep

theorem arises_of_readTypes (he : e ∈ (readTypes (.root doc)).2) : e.ArisesIn doc := by
  cases h : (do TypeTable.read (← (Node.root doc).field? "types") : Reading TypeTable) with
  | error e' =>
    rw [readTypes, h] at he
    rw [List.mem_singleton.mp he]
    rcases bind_eq_error.mp h with h | ⟨types, htypes, h⟩
    · exact arises_of_field? h
    · refine arises_of_read (fun x hx => ?_) h
      cases hx
      exact within_of_field? (by decide) htypes
  | ok t =>
    obtain ⟨hdeclarations, -, herrors⟩ := declared_readTypes h
    have hdeclared (name : String) (declaration : Node)
        (hlookup : t.declarations.lookup name = some declaration) :
        (within doc).node declaration declaration :=
      node_within (within_of_declared (hdeclarations ▸ hlookup))
    rw [herrors] at he
    obtain ⟨name, -, he⟩ := List.mem_flatMap.mp he
    unfold problemsOf at he
    split at he
    · rename_i e' hresolve
      rw [List.mem_singleton.mp he]
      have hroot : LoadError.ArisesIn doc (.fault (Node.root doc).place (.unknownType name)) :=
        LoadError.arisesIn_root trivial
      have hsteps : (within doc).Alike Eq (t.resolve name (.root doc))
          (t.resolve name (.root doc)) := resolve hdeclared hroot
      exact hsteps.arises hresolve
    · cases he

/-- The table of a document answers with problems of the document. -/
theorem tables_within (doc : Doc) :
    (within doc).Tables (readTypes (.root doc)).1 (readTypes (.root doc)).1 :=
  tables fun _ _ hlookup => node_within (within_of_declared hlookup)

/-! ## Entries -/

/-- An instruction entry of a document: an item of the list of a block. -/
structure IsItem (doc : Doc) (x : Node) : Prop where
  within : x.Within doc
  position : ∃ block item,
    x.place = [.key "blocks", .item block, .key "instructions", .item item]

/-- What has been read so far stands in the document. -/
structure Progress.Located (doc : Doc) (types : TypeTable) (p : Progress) : Prop where
  errors : ∀ e ∈ p.errors, e.ArisesIn doc
  entries : ∀ entry ∈ p.entries.entries, ∃ item, IsItem doc item ∧ Reads types item entry

namespace Progress

variable {types : TypeTable} {p : Progress} {node : Node}

theorem located_start {errors : List LoadError} (h : ∀ e ∈ errors, e.ArisesIn doc) :
    (Progress.start errors).Located doc types where
  errors := h
  entries := by
    intro entry hentry
    cases hentry

theorem Located.report (h : p.Located doc types) (he : e.ArisesIn doc) :
    (p.report e).Located doc types where
  errors := by
    intro e' he'
    rcases List.mem_append.mp he' with he' | he'
    · exact h.errors e' he'
    · rwa [List.mem_singleton.mp he']
  entries := h.entries

theorem Located.readInstruction (ht : (within doc).Tables types types)
    {state : Progress × List InstrId} (h : state.1.Located doc types) (hnode : IsItem doc node) :
    (readInstruction types node state).1.Located doc types := by
  obtain ⟨p, listed⟩ := state
  simp only [Progress.readInstruction]
  split
  · rename_i e he
    exact h.report ((Matching.entry ht _ (node_within hnode.within)).arises he)
  · rename_i entry hentry
    obtain ⟨hreading, hid, hfresh⟩ := readEntry_eq_ok.mp hentry
    have hnew := Table.contains_eq_false_iff.mp hfresh
    refine ⟨h.errors, fun entry' hentry' => ?_⟩
    simp only [Table.entries_insert_of_notMem hnew, List.mem_append, List.mem_singleton] at hentry'
    rcases hentry' with hentry' | rfl
    · exact h.entries entry' hentry'
    · exact ⟨node, hnode, rfl, hid, hreading⟩

theorem Located.readInstructions (ht : (within doc).Tables types types)
    (h : p.Located doc types) {nodes : List Node} (hnodes : ∀ node ∈ nodes, IsItem doc node) :
    (p.readInstructions types nodes).1.Located doc types :=
  List.foldlRecOn (motive := fun state : Progress × List InstrId => state.1.Located doc types)
    nodes _ h fun _ h node hnode => h.readInstruction ht (hnodes node hnode)

theorem Located.readBlock (ht : (within doc).Tables types types) (h : p.Located doc types)
    (hnode : node.Within doc) (hplace : ∃ i, node.place = [.key "blocks", .item i]) :
    (p.readBlock types node).Located doc types := by
  unfold Progress.readBlock
  split
  · rename_i e he
    exact h.report ((Matching.blockHead _ (node_within hnode)).arises he)
  · cases hitems : node.listOrEmpty "instructions" with
    | error e =>
      have he : e.ArisesIn doc := (Matching.listOrEmpty (node_within hnode)).arises hitems
      exact ⟨(h.report he).errors, h.entries⟩
    | ok nodes =>
      have hnodes : ∀ item ∈ nodes, IsItem doc item := by
        intro item hitem
        obtain ⟨hwithin, j, hj⟩ := hnode.mem_listOrEmpty hitems hitem
        obtain ⟨i, hi⟩ := hplace
        exact ⟨hwithin, i, j, by rw [hj, hi]; rfl⟩
      have hread := h.readInstructions ht hnodes
      exact ⟨hread.errors, hread.entries⟩

end Progress

/-- Block entries are items of the list under the key `blocks`. -/
theorem within_of_blockNodes {nodes : List Node} (h : blockNodes (.root doc) = .ok nodes)
    {node : Node} (hnode : node ∈ nodes) :
    node.Within doc ∧ ∃ i, node.place = [.key "blocks", .item i] := by
  obtain ⟨blocks, hblocks, h⟩ := bind_eq_ok.mp h
  have hblocks := Node.field?_of_field hblocks
  obtain ⟨-, hplace⟩ := Node.field?_eq_some hblocks
  obtain ⟨i, hi, hnodePlace⟩ := Node.mem_list h hnode
  obtain ⟨d, place⟩ := node
  cases hnodePlace
  exact ⟨(within_of_field? (by decide) hblocks).child _ hi, i, by rw [hplace]; rfl⟩

theorem arises_of_blockNodes (h : blockNodes (.root doc) = .error e) : e.ArisesIn doc := by
  rcases bind_eq_error.mp h with h | ⟨blocks, hblocks, h⟩
  · rcases bind_eq_error.mp h with h | ⟨entry, hentry, h⟩
    · exact arises_of_field? h
    · cases entry with
      | some entry => cases h
      | none =>
        cases h
        refine LoadError.arisesIn_root ?_
        cases doc with
        | map entries => exact ⟨entries, rfl, Option.map_eq_none_iff.mp (Except.ok.inj hentry)⟩
        | _ => cases hentry
  · have hwithin := within_of_field? (by decide) (Node.field?_of_field hblocks)
    exact (Matching.list (node_within hwithin)).arises h

theorem readProgress_located (doc : Doc) :
    (readProgress (.root doc)).Located doc (readTypes (.root doc)).1 := by
  have hstart : (Progress.start (readTypes (.root doc)).2).Located doc
      (readTypes (.root doc)).1 :=
    Progress.located_start fun _ => arises_of_readTypes
  unfold readProgress
  dsimp only
  split
  · rename_i e he
    exact hstart.report (arises_of_blockNodes he)
  · rename_i nodes hnodes
    refine List.foldlRecOn nodes _ hstart fun p hp node hnode => ?_
    obtain ⟨hwithin, hplace⟩ := within_of_blockNodes hnodes hnode
    exact hp.readBlock (tables_within doc) hwithin hplace

/-! ## Names in values -/

/-- A value of an instruction entry, at this place, names an instruction that was not read. -/
def NamesStray (doc : Doc) (place : Place) (id : InstrId) : Prop :=
  ∃ item entry, IsItem doc item ∧ place = item.place ++ [.key "value"] ∧
    entry ∈ (readProgress (.root doc)).entries.entries ∧
    Progress.Reads (readTypes (.root doc)).1 item entry ∧
    id ∈ entry.2.instruction.references ∧ id ∉ (readProgress (.root doc)).entries.keys

/-- The node that is kept for a value is the one under its key. -/
theorem valueNode_of_readEntry {types : TypeTable} {taken : InstrId → Bool} {node : Node}
    {entry : Entry} (h : readEntry types taken node = .ok entry) :
    node.field? "value" = .ok entry.valueNode := by
  obtain ⟨_, -, h⟩ := bind_eq_ok.mp h
  obtain ⟨_, -, h⟩ := bind_eq_ok.mp h
  obtain ⟨_, -, h⟩ := bind_eq_ok.mp h
  obtain ⟨_, -, h⟩ := bind_eq_ok.mp h
  obtain ⟨valueNode, hvalueNode, h⟩ := bind_eq_ok.mp h
  obtain ⟨_, -, h⟩ := bind_eq_ok.mp h
  obtain ⟨_, -, h⟩ := bind_eq_ok.mp h
  obtain ⟨_, -, h⟩ := bind_eq_ok.mp h
  cases h
  exact hvalueNode

/-- A name that leads nowhere is reported at the value that holds it. -/
theorem stray_of_valueErrors {entry : InstrId × Entry}
    (hentry : entry ∈ (readProgress (.root doc)).entries.entries)
    (he : e ∈ (readProgress (.root doc)).valueErrors entry.2) :
    ∃ x : Node, x.Within doc ∧ ∃ id, e = .fault x.place (.unknownInstruction id) ∧
      NamesStray doc x.place id := by
  obtain ⟨item, hitem, hreads⟩ := (readProgress_located doc).entries entry hentry
  unfold Progress.valueErrors at he
  split at he
  · cases he
  · rename_i node hnode
    obtain ⟨id, hid, rfl⟩ := List.mem_map.mp he
    obtain ⟨hname, hstray⟩ := List.mem_filter.mp hid
    rw [Bool.not_eq_true'] at hstray
    have hfield := valueNode_of_readEntry hreads.reading
    rw [hnode] at hfield
    obtain ⟨hstep, hplace⟩ := Node.field?_eq_some hfield
    obtain ⟨d, place⟩ := node
    cases hplace
    refine ⟨_, hitem.within.child _ hstep, id, rfl, item, entry, hitem, rfl, hentry, hreads,
      hname, ?_⟩
    exact Table.contains_eq_false_iff.mp hstray

/-- A problem is one that a reader has found, or a name that leads nowhere. -/
theorem found_or_stray (he : e ∈ (load doc).errors) :
    e.ArisesIn doc ∨ ∃ x : Node, x.Within doc ∧ ∃ id,
      e = .fault x.place (.unknownInstruction id) ∧ NamesStray doc x.place id := by
  unfold load at he
  dsimp only at he
  split at he
  · rename_i e' hentries
    unfold Node.entries at hentries
    split at hentries
    · cases hentries
    · cases hentries
      rw [List.mem_singleton.mp (List.mem_filter.mp he).1]
      exact .inl (LoadError.arisesIn_root trivial)
  · rw [Progress.errors_outcome] at he
    rcases List.mem_append.mp he with he | he
    · exact .inl ((readProgress_located doc).errors e he)
    · obtain ⟨entry, hentry, he⟩ := List.mem_flatMap.mp he
      obtain ⟨id, hentry⟩ := Table.mem_values_iff.mp hentry
      exact .inr (stray_of_valueErrors hentry he)

/-- Every problem of a load is the fault of a node of the document. Without a location it is the
root, and otherwise the location is the text of the way from the root to the node. A missing field
is reported at the mapping that lacks it, and an instruction that does not exist at the value of
the instruction that names it. -/
theorem load_locates (doc : Doc) {e : LoadError} (he : e ∈ (load doc).errors) :
    ∃ place cause d, e = .fault place cause ∧ doc.at? place = some d ∧
      (e.location = none ∧ place = [] ∨ e.location = some place.text ∧ place ≠ []) ∧
      (∀ key, cause = .missingField key →
        ∃ entries, d = .map entries ∧ entries.lookup key = none) ∧
      ∀ id, cause = .unknownInstruction id → NamesStray doc place id := by
  rcases found_or_stray he with ⟨hd, hroot, hfound⟩ | ⟨x, hx, id, rfl, hstray⟩
  · refine ⟨_, _, _, rfl, hd, LoadError.location_fault hroot, ?_, ?_⟩
    · rintro key rfl
      exact hfound
    · rintro id rfl
      exact hfound.elim
  · have hshown (hnone : x.place.text = "") : x.place = [] := absurd hnone hx.shown
    refine ⟨_, _, _, rfl, hx.addressed, LoadError.location_fault hshown, nofun, ?_⟩
    rintro id' h
    cases h
    exact hstray

/-- A pointer to a type of no kind, and a value that names an instruction that is absent. -/
def farFaults : Doc :=
  .map
    [("types", .map [("a", .map [("kind", .text "pointer"), ("child", .text "b")]),
       ("b", .map [])]),
     ("blocks", .list
      [.map
        [("id", .int 0),
         ("instructions", .list
          [.map [("id", .int 3), ("kind", .text "unreachable")],
           .map [("id", .int 4), ("kind", .text "const"), ("type", .text "(bound fn)"),
            ("value", .map [("fn", .text "f"), ("firstArg", .int 9)])]])]])]

/-- Where the value stands. -/
def farValue : Place :=
  [.key "blocks", .item 0, .key "instructions", .item 1, .key "value"]

/-- The type is at fault wherever it is asked for, and the value where it stands. -/
theorem load_locates_farFaults :
    (load farFaults).errors.map LoadError.location =
        [some "types.b", some "types.b", some "blocks[0].instructions[1].value"] ∧
      (∃ entries, farFaults.at? [.key "types", .key "b"] = some (.map entries) ∧
        entries.lookup "kind" = none) ∧ NamesStray farFaults farValue 9 := by
  have herrors : (load farFaults).errors =
      [.fault [.key "types", .key "b"] (.missingField "kind"),
       .fault [.key "types", .key "b"] (.missingField "kind"),
       .fault farValue (.unknownInstruction 9)] := by
    decide +kernel
  refine ⟨by rw [herrors]; decide +kernel, ?_, ?_⟩
  · obtain ⟨_, _, _, heq, hd, -, hmissing, -⟩ := load_locates farFaults
      (e := .fault [.key "types", .key "b"] (.missingField "kind")) (by simp [herrors])
    cases heq
    obtain ⟨entries, rfl, hlookup⟩ := hmissing "kind" rfl
    exact ⟨entries, hd, hlookup⟩
  · obtain ⟨_, _, _, heq, -, -, -, hstray⟩ := load_locates farFaults
      (e := .fault farValue (.unknownInstruction 9)) (by simp [herrors])
    cases heq
    exact hstray 9 rfl

end Description

end BlockIr
