import BlockIr.Description.Entry
import BlockIr.Proofs.Except

/-!
# Readings of nodes that match

A reader looks at the document of a node. The place of the node only matters where a problem is
reported, and a type table only where a type is named. So what is read from two nodes with the
same document, with two tables that answer alike, is the same, and a problem with the one is a
problem with the other.

* `Cause.FoundAt`: what has been seen of a node with a problem.
* `Matching`: which nodes and which problems are taken for the same.
* `Matching.Alike`: readings that agree, step by step.
* `Matching.entry`: instruction entries are read alike.
* `Matching.same`, `Matching.moved`: the same nodes with another table, and the same documents at
  another place.
-/

namespace BlockIr

/-- What a reader has seen of the document where it reports a cause: a mapping lacks the field that
is missing, and nothing that is read from one node tells whether an instruction exists. -/
def Cause.FoundAt : Cause → Doc → Prop
  | .missingField key, d => ∃ entries, d = .map entries ∧ entries.lookup key = none
  | .unknownInstruction _, _ => False
  | _, _ => True

/-- Which nodes and which problems are taken for the same. Nodes that match have the same
document, and so do the nodes one step below them. -/
structure Matching where
  node : Node → Node → Prop
  problem : LoadError → LoadError → Prop
  doc {x y : Node} : node x y → y.doc = x.doc
  fault {x y : Node} : node x y → ∀ cause, cause.FoundAt x.doc →
    problem (.fault x.place cause) (.fault y.place cause)
  child {x y : Node} {d : Doc} (step : Step) : node x y → x.doc.child? step = some d →
    node ⟨d, x.place ++ [step]⟩ ⟨d, y.place ++ [step]⟩

namespace Matching

/-- Two readings with related results, or with problems that are taken for the same. -/
inductive Alike (M : Matching) {α β : Type} (R : α → β → Prop) : Reading α → Reading β → Prop where
  | ok {a : α} {b : β} : R a b → Alike M R (.ok a) (.ok b)
  | error {e e' : LoadError} : M.problem e e' → Alike M R (.error e) (.error e')

variable {M : Matching}

/-! ## Steps of a reading -/

namespace Alike

variable {α β γ δ : Type} {R : α → β → Prop} {S : γ → δ → Prop}

theorem bind {x : Reading α} {y : Reading β} {f : α → Reading γ} {g : β → Reading δ}
    (h : M.Alike R x y) (hfg : ∀ a b, R a b → M.Alike S (f a) (g b)) :
    M.Alike S (x >>= f) (y >>= g) := by
  cases h with
  | ok hab => exact hfg _ _ hab
  | error he => exact .error he

theorem bindEq {x y : Reading α} {f : α → Reading γ} {g : α → Reading δ}
    (h : M.Alike Eq x y) (hfg : ∀ a, M.Alike S (f a) (g a)) : M.Alike S (x >>= f) (y >>= g) := by
  refine h.bind fun a b hab => ?_
  subst hab
  exact hfg a

theorem map {x y : Reading α} {f : α → γ} (h : M.Alike Eq x y) :
    M.Alike Eq (f <$> x) (f <$> y) := by
  cases h with
  | ok hab => exact .ok (congrArg f hab)
  | error he => exact .error he

theorem mapM {f : α → Reading γ} {g : β → Reading δ} {xs : List α} {ys : List β}
    (h : List.Forall₂ R xs ys) (hfg : ∀ a b, R a b → M.Alike S (f a) (g b)) :
    M.Alike (List.Forall₂ S) (xs.mapM f) (ys.mapM g) := by
  induction h with
  | nil => exact .ok .nil
  | cons hab _ ih =>
    rw [List.mapM_cons, List.mapM_cons]
    refine (hfg _ _ hab).bind fun c d hcd => ?_
    refine ih.bind fun cs ds hrest => ?_
    exact .ok (.cons hcd hrest)

theorem mapMEq {f g : α → Reading γ} {xs ys : List α} {R : α → α → Prop}
    (h : List.Forall₂ R xs ys) (hfg : ∀ a b, R a b → M.Alike Eq (f a) (g b)) :
    M.Alike Eq (xs.mapM f) (ys.mapM g) := by
  have hall : M.Alike (List.Forall₂ Eq) (xs.mapM f) (ys.mapM g) := .mapM h hfg
  rwa [List.forall₂_eq_eq_eq] at hall

end Alike

/-! ## Nodes -/

section Nodes

variable {x y : Node} {key : String}

theorem fail {α β : Type} {R : α → β → Prop} (h : M.node x y) (cause : Cause)
    (hfound : cause.FoundAt x.doc) :
    M.Alike R (x.fail cause) (y.fail cause) :=
  .error (M.fault h cause hfound)

theorem field? (h : M.node x y) : M.Alike (Option.Rel M.node) (x.field? key) (y.field? key) := by
  obtain ⟨doc, place⟩ := x
  obtain ⟨doc', place'⟩ := y
  obtain rfl : doc' = doc := M.doc h
  cases doc' with
  | map entries =>
    refine .ok ?_
    cases hlookup : entries.lookup key with
    | none => exact .none
    | some d => exact .some (M.child (.key key) h hlookup)
  | _ => exact fail h _ trivial

theorem field (h : M.node x y) : M.Alike M.node (x.field key) (y.field key) := by
  obtain ⟨doc, place⟩ := x
  obtain ⟨doc', place'⟩ := y
  obtain rfl : doc' = doc := M.doc h
  cases doc' with
  | map entries =>
    cases hlookup : entries.lookup key with
    | none =>
      simp only [Node.field, Node.field?, hlookup, Option.map_none, ok_bind]
      exact fail h _ ⟨entries, rfl, hlookup⟩
    | some d =>
      simp only [Node.field, Node.field?, hlookup, Option.map_some, ok_bind]
      exact .ok (M.child (.key key) h hlookup)
  | _ => exact fail h _ trivial

theorem has (h : M.node x y) : y.has key = x.has key := by
  rw [Node.has, Node.has, M.doc h]

theorem list (h : M.node x y) : M.Alike (List.Forall₂ M.node) x.list y.list := by
  obtain ⟨doc, place⟩ := x
  obtain ⟨doc', place'⟩ := y
  obtain rfl : doc' = doc := M.doc h
  cases doc' with
  | list items =>
    refine .ok (List.forall₂_iff_get.mpr ⟨by simp, fun i hi _ => ?_⟩)
    have hi : i < items.length := by simpa using hi
    have hitem : items[i]? = some items[i] := List.getElem?_eq_getElem hi
    simpa using M.child (.item i) h hitem
  | _ => exact fail h _ trivial

theorem text (h : M.node x y) : M.Alike Eq x.text y.text := by
  unfold Node.text
  rw [M.doc h]
  split
  · exact .ok rfl
  · exact fail h _ trivial

theorem bool (h : M.node x y) : M.Alike Eq x.bool y.bool := by
  unfold Node.bool
  rw [M.doc h]
  split
  · exact .ok rfl
  · exact fail h _ trivial

theorem number (h : M.node x y) : M.Alike Eq x.number y.number := by
  unfold Node.number
  rw [M.doc h]
  split
  · exact .ok rfl
  · exact .ok rfl
  · exact fail h _ trivial

theorem index (h : M.node x y) : M.Alike Eq x.index y.index := by
  refine (number h).bindEq fun n => ?_
  split
  · split
    · exact .ok rfl
    · exact fail h _ trivial
  · exact fail h _ trivial

theorem integer (h : M.node x y) : M.Alike Eq x.integer y.integer := by
  unfold Node.integer
  rw [M.doc h]
  split
  · exact .ok rfl
  · split
    · split
      · exact .ok rfl
      · exact fail h _ trivial
    · exact fail h _ trivial
  · split
    · exact .ok rfl
    · exact fail h _ trivial
  · exact fail h _ trivial

theorem word {α : Type} {parse? : String → Option α} (h : M.node x y) (cause : String → Cause)
    (hfound : ∀ w, (cause w).FoundAt x.doc) :
    M.Alike Eq (x.word parse? cause) (y.word parse? cause) := by
  refine (text h).bindEq fun w => ?_
  split
  · exact .ok rfl
  · exact fail h _ (hfound _)

theorem boolOr {default : Bool} (h : M.node x y) :
    M.Alike Eq (x.boolOr key default) (y.boolOr key default) := by
  refine (field? h).bind fun a b hab => ?_
  cases hab with
  | none => exact .ok rfl
  | some hab => exact bool hab

theorem textOr {default : String} (h : M.node x y) :
    M.Alike Eq (x.textOr key default) (y.textOr key default) := by
  refine (field? h).bind fun a b hab => ?_
  cases hab with
  | none => exact .ok rfl
  | some hab => exact text hab

theorem listOrEmpty (h : M.node x y) :
    M.Alike (List.Forall₂ M.node) (x.listOrEmpty key) (y.listOrEmpty key) := by
  refine (field? h).bind fun a b hab => ?_
  cases hab with
  | none => exact .ok .nil
  | some hab => exact list hab

theorem id (h : M.node x y) : M.Alike Eq (x.id key) (y.id key) :=
  (field h).bind fun _ _ hab => index hab

theorem name (h : M.node x y) : M.Alike Eq (x.name key) (y.name key) :=
  (field h).bind fun _ _ hab => text hab

theorem itemsOf {α : Type} {read read' : Node → Reading α} (h : M.node x y)
    (hread : ∀ a b, M.node a b → M.Alike Eq (read a) (read' b)) :
    M.Alike Eq (x.listOrEmpty key >>= fun items => items.mapM read)
      (y.listOrEmpty key >>= fun items => items.mapM read') :=
  (listOrEmpty h).bind fun _ _ hitems => .mapMEq hitems hread

end Nodes

/-! ## Operations -/

/-- Tables that answer alike. -/
def Tables (M : Matching) (t t' : TypeTable) : Prop :=
  ∀ x y, M.node x y → M.Alike Eq (t.lookup x) (t'.lookup y)

section Operations

variable {x y : Node}

theorem slot (h : M.node x y) : M.Alike Eq (readVariable x) (readVariable y) := by
  refine (field h).bind fun a b hab => ?_
  refine (name hab).bindEq fun _ => ?_
  refine (boolOr hab).bindEq fun _ => ?_
  refine (boolOr hab).bindEq fun _ => ?_
  exact .ok rfl

theorem callee (h : M.node x y) : M.Alike Eq (readCallee x) (readCallee y) := by
  unfold readCallee
  rw [M.doc h]
  split
  · exact .ok rfl
  · exact (index h).map

theorem phiEdge (h : M.node x y) : M.Alike Eq (readPhiEdge x) (readPhiEdge y) := by
  refine (id h).bindEq fun _ => ?_
  refine (id h).bindEq fun _ => ?_
  exact .ok rfl

theorem switchCase (h : M.node x y) : M.Alike Eq (readSwitchCase x) (readSwitchCase y) := by
  refine (id h).bindEq fun _ => ?_
  refine (id h).bindEq fun _ => ?_
  exact .ok rfl

theorem fieldInit (h : M.node x y) : M.Alike Eq (readFieldInit x) (readFieldInit y) := by
  refine (name h).bindEq fun _ => ?_
  refine (id h).bindEq fun _ => ?_
  exact .ok rfl

theorem fieldOf (type : Ty) (h : M.node x y) :
    M.Alike Eq (readFieldOf type x) (readFieldOf type y) := by
  refine (text h).bindEq fun _ => ?_
  split
  · split
    · exact .ok rfl
    · exact fail h _ trivial
  · exact .ok rfl

theorem structField (type : Ty) (h : M.node x y) :
    M.Alike Eq (readStructField type x) (readStructField type y) := by
  refine (field h).bind fun _ _ hab => ?_
  refine (fieldOf type hab).bindEq fun _ => ?_
  refine (id h).bindEq fun _ => ?_
  exact .ok rfl

theorem asmTarget (h : M.node x y) : M.Alike Eq (readAsmTarget x) (readAsmTarget y) := by
  unfold readAsmTarget
  rw [has h]
  split
  · exact (id h).map
  · exact (name h).map

theorem asmOutput (h : M.node x y) : M.Alike Eq (readAsmOutput x) (readAsmOutput y) := by
  refine (name h).bindEq fun _ => ?_
  refine (name h).bindEq fun _ => ?_
  refine (asmTarget h).bindEq fun _ => ?_
  exact .ok rfl

theorem asmInput (h : M.node x y) : M.Alike Eq (readAsmInput x) (readAsmInput y) := by
  refine (name h).bindEq fun _ => ?_
  refine (name h).bindEq fun _ => ?_
  refine (id h).bindEq fun _ => ?_
  exact .ok rfl

variable {t t' : TypeTable}

theorem declVar (h : M.node x y) : M.Alike Eq (readDeclVar t x) (readDeclVar t' y) := by
  refine (slot h).bindEq fun _ => ?_
  rw [has h]
  split
  · refine (id h).map.bindEq fun _ => ?_
    refine (id h).bindEq fun _ => ?_
    exact .ok rfl
  · refine (id h).bindEq fun _ => ?_
    exact .ok rfl

theorem readOne {make : InstrId → Operation} {key : String} (h : M.node x y) :
    M.Alike Eq (oneOperand make key t x) (oneOperand make key t' y) :=
  (id h).map

theorem readTwo {make : InstrId → InstrId → Operation} {first second : String}
    (h : M.node x y) :
    M.Alike Eq (twoOperands make first second t x) (twoOperands make first second t' y) := by
  refine (id h).bindEq fun _ => ?_
  refine (id h).bindEq fun _ => ?_
  exact .ok rfl

theorem readFlag {make : Int → Bool → Operation} {key flag : String} {default : Bool}
    (h : M.node x y) :
    M.Alike Eq (operandAndFlag make key flag default t x)
      (operandAndFlag make key flag default t' y) := by
  refine (id h).bindEq fun _ => ?_
  refine (boolOr h).bindEq fun _ => ?_
  exact .ok rfl

theorem readField {make : InstrId → String → Operation} {key member : String} (h : M.node x y) :
    M.Alike Eq (operandAndField make key member t x) (operandAndField make key member t' y) := by
  refine (id h).bindEq fun _ => ?_
  refine (name h).bindEq fun _ => ?_
  exact .ok rfl

theorem binary (h : M.node x y) : M.Alike Eq (readBinary t x) (readBinary t' y) := by
  refine (field h).bind fun _ _ hop => ?_
  refine (word hop .unknownOperator fun _ => trivial).bindEq fun _ => ?_
  refine (id h).bindEq fun _ => ?_
  refine (id h).bindEq fun _ => ?_
  exact .ok rfl

theorem unary (h : M.node x y) : M.Alike Eq (readUnary t x) (readUnary t' y) := by
  refine (field h).bind fun _ _ hop => ?_
  refine (word hop .unknownOperator fun _ => trivial).bindEq fun _ => ?_
  refine (id h).bindEq fun _ => ?_
  exact .ok rfl

theorem cast (ht : M.Tables t t') (h : M.node x y) :
    M.Alike Eq (readCast t x) (readCast t' y) := by
  refine (id h).bindEq fun _ => ?_
  refine (field h).bind fun _ _ htype => ?_
  refine (ht _ _ htype).bindEq fun _ => ?_
  exact .ok rfl

theorem ids {key : String} (h : M.node x y) : M.Alike Eq (x.ids key) (y.ids key) :=
  itemsOf h fun _ _ hitem => index hitem

theorem call (h : M.node x y) : M.Alike Eq (readCall t x) (readCall t' y) := by
  refine (field h).bind fun _ _ hcallee => ?_
  refine (callee hcallee).bindEq fun _ => ?_
  refine (ids h).bindEq fun _ => ?_
  exact .ok rfl

theorem condBr (h : M.node x y) : M.Alike Eq (readCondBr t x) (readCondBr t' y) := by
  refine (id h).bindEq fun _ => ?_
  refine (id h).bindEq fun _ => ?_
  refine (id h).bindEq fun _ => ?_
  refine (boolOr h).bindEq fun _ => ?_
  exact .ok rfl

theorem phi (h : M.node x y) : M.Alike Eq (readPhi t x) (readPhi t' y) := by
  refine (listOrEmpty h).bind fun _ _ hitems => ?_
  refine (Alike.mapMEq hitems fun _ _ hitem => phiEdge hitem).bindEq fun _ => ?_
  exact .ok rfl

theorem switchBr (h : M.node x y) : M.Alike Eq (readSwitchBr t x) (readSwitchBr t' y) := by
  refine (id h).bindEq fun _ => ?_
  refine (listOrEmpty h).bind fun _ _ hitems => ?_
  refine (Alike.mapMEq hitems fun _ _ hitem => switchCase hitem).bindEq fun _ => ?_
  refine (id h).bindEq fun _ => ?_
  refine (boolOr h).bindEq fun _ => ?_
  exact .ok rfl

theorem containerInitList (h : M.node x y) :
    M.Alike Eq (readContainerInitList t x) (readContainerInitList t' y) := by
  refine (id h).bindEq fun _ => ?_
  refine (ids h).bindEq fun _ => ?_
  exact .ok rfl

theorem containerInitFields (h : M.node x y) :
    M.Alike Eq (readContainerInitFields t x) (readContainerInitFields t' y) := by
  refine (id h).bindEq fun _ => ?_
  refine (listOrEmpty h).bind fun _ _ hitems => ?_
  refine (Alike.mapMEq hitems fun _ _ hitem => fieldInit hitem).bindEq fun _ => ?_
  exact .ok rfl

theorem structInit (ht : M.Tables t t') (h : M.node x y) :
    M.Alike Eq (readStructInit t x) (readStructInit t' y) := by
  refine (field h).bind fun _ _ htype => ?_
  refine (ht _ _ htype).bindEq fun type => ?_
  refine (listOrEmpty h).bind fun _ _ hitems => ?_
  refine (Alike.mapMEq hitems fun _ _ hitem => structField type hitem).bindEq fun _ => ?_
  exact .ok rfl

theorem elemPtr (h : M.node x y) : M.Alike Eq (readElemPtr t x) (readElemPtr t' y) := by
  refine (id h).bindEq fun _ => ?_
  refine (id h).bindEq fun _ => ?_
  refine (boolOr h).bindEq fun _ => ?_
  exact .ok rfl

theorem asm (h : M.node x y) : M.Alike Eq (readAsm t x) (readAsm t' y) := by
  refine (name h).bindEq fun _ => ?_
  refine (listOrEmpty h).bind fun _ _ houtputs => ?_
  refine (Alike.mapMEq houtputs fun _ _ hitem => asmOutput hitem).bindEq fun _ => ?_
  refine (listOrEmpty h).bind fun _ _ hinputs => ?_
  refine (Alike.mapMEq hinputs fun _ _ hitem => asmInput hitem).bindEq fun _ => ?_
  refine (listOrEmpty h).bind fun _ _ hclobbers => ?_
  refine (Alike.mapMEq hclobbers fun _ _ hitem => text hitem).bindEq fun _ => ?_
  refine (boolOr h).bindEq fun _ => ?_
  exact .ok rfl

theorem operation (ht : M.Tables t t') (h : M.node x y) {kind : String}
    {reader : OperationReader} (hreader : operationReader? kind = some reader) :
    M.Alike Eq (reader t x) (reader t' y) := by
  unfold operationReader? at hreader
  split at hreader
  -- The words without a case of their own are those of the two families.
  all_goals first | cases hreader | split at hreader <;> cases hreader
  all_goals first
    | exact .ok rfl
    | exact (slot h).map
    | exact readOne h
    | exact readTwo h
    | exact readFlag h
    | exact readField h
    | exact binary h
    | exact unary h
    | exact declVar h
    | exact cast ht h
    | exact call h
    | exact condBr h
    | exact phi h
    | exact switchBr h
    | exact containerInitList h
    | exact containerInitFields h
    | exact structInit ht h
    | exact elemPtr h
    | exact asm h

end Operations

/-! ## Constants -/

section Constants

variable {x y : Node} {t t' : TypeTable}

theorem state {payload payload' : Node → Reading Data} (h : M.node x y)
    (hpayload : M.Alike Eq (payload x) (payload' y)) :
    M.Alike Eq (readState x payload) (readState y payload') := by
  unfold readState
  rw [has h]
  split
  · exact (field h).bind fun _ _ hspecial => word hspecial _ fun _ => trivial
  · refine hpayload.bindEq fun _ => ?_
    exact .ok rfl

theorem part {payload payload' : Node → Reading Data} (h : M.node x y)
    (hpayload : M.Alike Eq (payload x) (payload' y)) :
    M.Alike Eq (readPart payload x) (readPart payload' y) := by
  refine (state h hpayload).bindEq fun _ => ?_
  split
  · exact fail h _ trivial
  · exact .ok rfl

theorem plain (ht : M.Tables t t') (kind : PlainKind) (typeName : String) (h : M.node x y) :
    M.Alike Eq (readData t (.plain kind typeName) x) (readData t' (.plain kind typeName) y) := by
  cases kind with
  | intLiteral => exact (integer h).map
  | floatLiteral => exact (number h).map
  | bool => exact (bool h).map
  | metaType => exact (ht _ _ h).map
  | fn => exact (text h).map
  | block =>
    refine (id h).bindEq fun _ => ?_
    refine (id h).bindEq fun _ => ?_
    exact .ok rfl
  | namespacePath => exact (text h).map
  | boundFn =>
    refine (field h).bind fun _ _ hfn => ?_
    refine (text hfn).bindEq fun _ => ?_
    refine (id h).bindEq fun _ => ?_
    exact .ok rfl
  | _ => exact .ok rfl

theorem data (ht : M.Tables t t') (type : Ty) (h : M.node x y) :
    M.Alike Eq (readData t type x) (readData t' type y) := by
  induction type generalizing x y with
  | declared typeName canonical ih => exact ih h
  | int => exact (integer h).map
  | float => exact (number h).map
  | pointer typeName child isConst ih => exact (part h (ih h)).map
  | array typeName child length ih =>
    unfold readData
    refine (list h).bind fun items items' hitems => ?_
    rw [hitems.length_eq]
    split
    · refine (Alike.mapMEq hitems fun _ _ hitem => part hitem (ih hitem)).bindEq fun _ => ?_
      exact .ok rfl
    · exact fail h _ trivial
  | maybe typeName child ih =>
    unfold readData
    rw [M.doc h]
    split
    · exact .ok rfl
    · exact (part h (ih h)).map
  | plain kind typeName => exact plain ht kind typeName h
  | errorUnion | aggregate | unrecognised => exact .ok rfl

theorem value (ht : M.Tables t t') (type : Option Ty) {node node' : Option Node}
    (h : Option.Rel M.node node node') :
    M.Alike Eq (readValue t type node) (readValue t' type node') := by
  cases h with
  | none => exact .ok rfl
  | some h =>
    unfold readValue
    refine state h ?_
    cases type with
    | none => exact fail h _ trivial
    | some type => exact data ht type h

end Constants

/-! ## Entries -/

section Entries

variable {x y : Node} {t t' : TypeTable}

theorem kind (h : M.node x y) :
    M.Alike (fun reader reader' => reader' = reader ∧ ∃ w, operationReader? w = some reader)
      (readKind x) (readKind y) := by
  refine (field h).bind fun _ _ hkind => ?_
  refine (text hkind).bindEq fun w => ?_
  split
  · rename_i hreader
    exact .ok ⟨rfl, w, hreader⟩
  · exact fail hkind _ trivial

theorem freshId (h : M.node x y) (taken : Int → Bool) (cause : Int → Cause)
    (hfound : ∀ id d, (cause id).FoundAt d) :
    M.Alike Eq (readFreshId x taken cause) (readFreshId y taken cause) := by
  refine (field h).bind fun _ _ hid => ?_
  refine (index hid).bindEq fun _ => ?_
  split
  · exact fail hid _ (hfound _ _)
  · exact .ok rfl

theorem type (ht : M.Tables t t') (h : M.node x y) :
    M.Alike Eq (readType t x) (readType t' y) := by
  refine (field? h).bind fun a b htype => ?_
  cases htype with
  | none => exact .ok rfl
  | some htype =>
    dsimp only
    rw [M.doc htype]
    split
    · exact .ok rfl
    · exact (ht _ _ htype).map

theorem useCount {node node' : Option Node} (h : Option.Rel M.node node node') :
    M.Alike Eq (readUseCount node) (readUseCount node') := by
  cases h with
  | none => exact .ok rfl
  | some h => exact index h

/-- Entries that say the same, with values from nodes that match. -/
structure Entries (M : Matching) (entry entry' : Entry) : Prop where
  instruction : entry'.instruction = entry.instruction
  counted : entry'.counted = entry.counted
  valueNode : Option.Rel M.node entry.valueNode entry'.valueNode

theorem entry (ht : M.Tables t t') (taken : InstrId → Bool) (h : M.node x y) :
    M.Alike M.Entries (readEntry t taken x) (readEntry t' taken y) := by
  refine (kind h).bind fun reader reader' hreader => ?_
  obtain ⟨rfl, w, hreader⟩ := hreader
  refine (freshId h taken .duplicateInstruction fun _ _ => trivial).bindEq fun id => ?_
  refine (type ht h).bindEq fun type => ?_
  refine (field? h).bind fun countNode countNode' hcount => ?_
  refine (field? h).bind fun valueNode valueNode' hvalue => ?_
  refine (useCount hcount).bindEq fun refCount => ?_
  refine (value ht type hvalue).bindEq fun value => ?_
  refine (operation ht h hreader).bindEq fun operation => ?_
  refine .ok ⟨rfl, ?_, hvalue⟩
  cases hcount <;> rfl

theorem blockHead (taken : BlockId → Bool) (h : M.node x y) :
    M.Alike Eq (readBlockHead taken x) (readBlockHead taken y) := by
  refine (freshId h taken .duplicateBlock fun _ _ => trivial).bindEq fun _ => ?_
  refine (textOr h).bindEq fun _ => ?_
  exact .ok rfl

end Entries

/-! ## The same nodes, and nodes at another place -/

/-- Only the same nodes match, and only the same problems. -/
def same : Matching where
  node := Eq
  problem := Eq
  doc := by
    rintro x _ rfl
    rfl
  fault := by
    rintro x _ rfl cause -
    rfl
  child := by
    rintro x _ d step rfl -
    rfl

/-- Nodes match wherever they stand, and a problem is a problem. -/
def moved : Matching where
  node x y := y.doc = x.doc
  problem _ _ := True
  doc h := h
  fault _ _ _ := trivial
  child _ _ _ := rfl

theorem Alike.ok_of_moved {α : Type} {a : α} {r r' : Reading α} (h : moved.Alike Eq r r')
    (hr : r = .ok a) : r' = .ok a := by
  subst hr
  cases h with
  | ok hab => rw [hab]

end Matching

/-- An entry depends on a type table through its answers only. -/
theorem readEntry_congr {t t' : TypeTable} (h : ∀ node, t'.lookup node = t.lookup node)
    (taken : InstrId → Bool) (node : Node) :
    readEntry t' taken node = readEntry t taken node := by
  have ht : Matching.same.Tables t t' := by
    rintro x _ rfl
    rw [h]
    cases t.lookup x with
    | ok type => exact .ok rfl
    | error e => exact .error rfl
  have hentry := Matching.entry ht taken (rfl : Matching.same.node node node)
  generalize readEntry t taken node = r at hentry
  generalize readEntry t' taken node = r' at hentry
  cases hentry with
  | error he =>
    cases he
    rfl
  | @ok entry entry' hsame =>
    obtain ⟨instruction, counted, valueNode⟩ := entry
    obtain ⟨instruction', counted', valueNode'⟩ := entry'
    obtain ⟨rfl, rfl, hnode⟩ := hsame
    cases hnode with
    | none => rfl
    | some hnode =>
      cases hnode
      rfl

end BlockIr
