import BlockIr.Proofs.Description.Resolution
import BlockIr.Proofs.Description.Transcript
import BlockIr.Proofs.LineBreaks

/-!
# Where names come from

The names of a loaded executable are texts and keys of its description, but for those of builtin
types and of blocks without a name. So what holds of these texts holds of every name that a dump
shows.

* `Doc.Mentions`: the texts and keys of a document.
* `Node.Only`: nodes whose texts and keys have a property.
* `Ty.Named`: types whose names, at any depth, have it.
* `readEntry_named`, `names_of_load`: the names of an entry, and those of an executable.
-/

namespace BlockIr

/-- The texts and keys of a document. -/
inductive Doc.Mentions : Doc → String → Prop where
  | text (s : String) : Mentions (.text s) s
  | key {entries : List (String × Doc)} {key : String} {d : Doc} : (key, d) ∈ entries →
    Mentions (.map entries) key
  | entry {entries : List (String × Doc)} {key s : String} {d : Doc} : (key, d) ∈ entries →
    Mentions d s → Mentions (.map entries) s
  | item {items : List Doc} {d : Doc} {s : String} : d ∈ items → Mentions d s →
    Mentions (.list items) s

/-- A node whose texts and keys all have a property. -/
def Node.Only (P : String → Prop) (x : Node) : Prop := ∀ s, x.doc.Mentions s → P s

variable {P : String → Prop} {x y : Node} {key s : String}

namespace Node.Only

theorem child (h : x.Only P) {step : Step} (hstep : x.doc.child? step = some y.doc) :
    y.Only P := by
  intro s hs
  refine h s ?_
  obtain ⟨d, place⟩ := x
  cases step with
  | key key =>
    cases d with
    | map entries =>
      obtain ⟨before, after, hentries, -⟩ := List.lookup_eq_some_iff.mp hstep
      have hentry : (key, y.doc) ∈ entries := by simp [hentries]
      exact .entry hentry hs
    | _ => cases hstep
  | item i =>
    cases d with
    | list items => exact .item (List.mem_of_getElem? hstep) hs
    | _ => cases hstep

theorem field? (h : x.Only P) (hy : x.field? key = .ok (some y)) : y.Only P :=
  h.child (field?_eq_some hy).1

theorem field (h : x.Only P) (hy : x.field key = .ok y) : y.Only P :=
  h.field? (field?_of_field hy)

theorem list (h : x.Only P) {items : List Node} (hitems : x.list = .ok items) :
    ∀ item ∈ items, item.Only P := by
  intro item hitem
  obtain ⟨i, hi, -⟩ := mem_list hitems hitem
  exact h.child hi

theorem listOrEmpty (h : x.Only P) {items : List Node}
    (hitems : x.listOrEmpty key = .ok items) : ∀ item ∈ items, item.Only P := by
  obtain ⟨entry, hentry, hitems⟩ := bind_eq_ok.mp hitems
  cases entry with
  | none =>
    cases hitems
    exact nofun
  | some entry => exact (h.field? hentry).list hitems

theorem text (h : x.Only P) (hs : x.text = .ok s) : P s := by
  obtain ⟨d, place⟩ := x
  cases d with
  | text s' =>
    cases hs
    exact h s (.text s)
  | _ => cases hs

theorem name (h : x.Only P) (hs : x.name key = .ok s) : P s := by
  obtain ⟨entry, hentry, hs⟩ := bind_eq_ok.mp hs
  exact (h.field hentry).text hs

theorem textOr (h : x.Only P) {default : String} (hdefault : P default)
    (hs : x.textOr key default = .ok s) : P s := by
  obtain ⟨entry, hentry, hs⟩ := bind_eq_ok.mp hs
  cases entry with
  | none =>
    cases hs
    exact hdefault
  | some entry => exact (h.field? hentry).text hs

end Node.Only

/-! ## Types -/

/-- A type whose name has a property, and so have the names of the types it is built on. -/
def Ty.Named (P : String → Prop) : Ty → Prop
  | .plain _ name | .int name _ _ | .float name _ | .aggregate _ name _ | .unrecognised _ name =>
    P name
  | .pointer name child _ | .array name child _ | .maybe name child | .errorUnion name child
  | .declared name child => P name ∧ child.Named P

theorem Ty.Named.name {t : Ty} (h : t.Named P) : P t.name := by
  cases t <;> first | exact h | exact h.1

/-- Builtin types are built on no others. -/
theorem Ty.named_of_builtin {t : Ty} (ht : t ∈ Ty.builtins) (h : P t.name) : t.Named P := by
  have hall : ∀ t ∈ Ty.builtins, P t.name → t.Named P := by
    simp [Ty.builtins, ofPlain, ofInt, ofFloat, Named, Ty.name]
  exact hall t ht h

/-- What a declaration gives is named well, if what it is built on is. -/
def Declaration.Named (P : String → Prop) : Declaration → Prop
  | .complete type => type.Named P
  | .over child build => child.Only P ∧
    ∀ childType type, childType.Named P → build childType = .ok type → type.Named P

theorem Declaration.named_of_read (h : x.Only P) (hkey : P key) {d : Declaration}
    (hd : Declaration.read key x = .ok d) : d.Named P := by
  obtain ⟨_, -, hd⟩ := bind_eq_ok.mp hd
  obtain ⟨shape, -, hd⟩ := bind_eq_ok.mp hd
  obtain ⟨name, hname, hd⟩ := bind_eq_ok.mp hd
  have hname : P name := h.textOr hkey hname
  unfold Declaration.readShape at hd
  cases shape with
  | plain kind =>
    cases hd
    exact hname
  | int =>
    obtain ⟨_, -, hd⟩ := bind_eq_ok.mp hd
    obtain ⟨_, -, hd⟩ := bind_eq_ok.mp hd
    cases hd
    exact hname
  | float =>
    obtain ⟨_, -, hd⟩ := bind_eq_ok.mp hd
    cases hd
    exact hname
  | aggregate kind =>
    obtain ⟨_, -, hd⟩ := bind_eq_ok.mp hd
    obtain ⟨_, -, hd⟩ := bind_eq_ok.mp hd
    cases hd
    exact hname
  | pointer | array =>
    obtain ⟨child, hchild, hd⟩ := bind_eq_ok.mp hd
    cases hd
    refine ⟨h.field hchild, fun childType type hnamed hbuild => ?_⟩
    obtain ⟨_, -, hbuild⟩ := bind_eq_ok.mp hbuild
    cases hbuild
    exact ⟨hname, hnamed⟩
  | maybe | errorUnion | declared =>
    obtain ⟨child, hchild, hd⟩ := bind_eq_ok.mp hd
    cases hd
    refine ⟨h.field hchild, fun childType type hnamed hbuild => ?_⟩
    cases hbuild
    exact ⟨hname, hnamed⟩

namespace TypeTable

/-- The names of types that a table gives have a property: the builtin names have it, and so have
the texts and keys of the declarations. -/
structure NamesOnly (P : String → Prop) (declarations : List (String × Node)) : Prop where
  builtin : ∀ t ∈ Ty.builtins, P t.name
  declared : ∀ name declaration, declarations.lookup name = some declaration →
    declaration.Only P

theorem NamesOnly.unfolds {declarations : List (String × Node)} (h : NamesOnly P declarations)
    {chain : List String} {name : String} {type : Ty} (hname : P name)
    (htype : Unfolds declarations chain name type) : type.Named P := by
  induction htype with
  | @builtin name type _ hknown =>
    obtain ⟨before, after, hknown, -⟩ := List.lookup_eq_some_iff.mp hknown
    have hmem : (name, type) ∈ TypeTable.builtin.known := by simp [hknown]
    obtain ⟨t, ht, heq⟩ := List.mem_map.mp hmem
    cases heq
    exact Ty.named_of_builtin ht (h.builtin _ ht)
  | complete hdeclared hread =>
    exact Declaration.named_of_read (h.declared _ _ hdeclared) hname hread
  | built hdeclared hread hpart _ hbuild ih =>
    obtain ⟨hchild, hnamed⟩ := Declaration.named_of_read (h.declared _ _ hdeclared) hname hread
    exact hnamed _ _ (ih (hchild.text hpart)) hbuild

theorem NamesOnly.lookup {t : TypeTable} (h : NamesOnly P t.declarations) (ht : t.IsFaithful)
    (hx : x.Only P) {type : Ty} (htype : t.lookup x = .ok type) : type.Named P := by
  obtain ⟨name, chain, hname, hchain⟩ := (lookup_ok_iff ht).mp htype
  exact h.unfolds (hx.text hname) hchain

end TypeTable

/-- Whatever a table answers to well named nodes is well named. -/
def TypeTable.Answers (P : String → Prop) (t : TypeTable) : Prop :=
  ∀ x type, Node.Only P x → t.lookup x = .ok type → type.Named P

/-! ## Operations -/

section Operations

theorem readVariable_named (h : x.Only P) {v : Variable} (hv : readVariable x = .ok v) :
    P v.name := by
  obtain ⟨entry, hentry, hv⟩ := bind_eq_ok.mp hv
  obtain ⟨name, hname, hv⟩ := bind_eq_ok.mp hv
  obtain ⟨_, -, hv⟩ := bind_eq_ok.mp hv
  obtain ⟨_, -, hv⟩ := bind_eq_ok.mp hv
  cases hv
  exact (h.field hentry).name hname

theorem readFieldInit_named (h : x.Only P) {f : FieldInit} (hf : readFieldInit x = .ok f) :
    P f.field := by
  obtain ⟨name, hname, hf⟩ := bind_eq_ok.mp hf
  obtain ⟨_, -, hf⟩ := bind_eq_ok.mp hf
  cases hf
  exact h.name hname

theorem readFieldOf_named (h : x.Only P) {type : Ty} (hs : readFieldOf type x = .ok s) : P s := by
  obtain ⟨name, hname, hs⟩ := bind_eq_ok.mp hs
  have hname : P name := h.text hname
  split at hs
  · split at hs
    · cases hs
      exact hname
    · cases hs
  · cases hs
    exact hname

theorem readStructField_named (h : x.Only P) {type : Ty} {f : FieldInit}
    (hf : readStructField type x = .ok f) : P f.field := by
  obtain ⟨entry, hentry, hf⟩ := bind_eq_ok.mp hf
  obtain ⟨name, hname, hf⟩ := bind_eq_ok.mp hf
  obtain ⟨_, -, hf⟩ := bind_eq_ok.mp hf
  cases hf
  exact readFieldOf_named (h.field hentry) hname

theorem readAsmTarget_named (h : x.Only P) {target : AsmTarget}
    (htarget : readAsmTarget x = .ok target) : ∀ name ∈ target.names, P name := by
  unfold readAsmTarget at htarget
  split at htarget
  · obtain ⟨_, -, rfl⟩ := map_eq_ok.mp htarget
    exact nofun
  · obtain ⟨name, hname, rfl⟩ := map_eq_ok.mp htarget
    exact List.forall_mem_singleton.mpr (h.name hname)

theorem readAsmOutput_named (h : x.Only P) {o : AsmOutput} (ho : readAsmOutput x = .ok o) :
    ∀ name ∈ o.names, P name := by
  obtain ⟨symbolicName, hsymbolic, ho⟩ := bind_eq_ok.mp ho
  obtain ⟨constraint, hconstraint, ho⟩ := bind_eq_ok.mp ho
  obtain ⟨target, htarget, ho⟩ := bind_eq_ok.mp ho
  cases ho
  exact List.forall_mem_cons.mpr ⟨h.name hsymbolic,
    List.forall_mem_cons.mpr ⟨h.name hconstraint, readAsmTarget_named h htarget⟩⟩

theorem readAsmInput_named (h : x.Only P) {i : AsmInput} (hi : readAsmInput x = .ok i) :
    ∀ name ∈ i.names, P name := by
  obtain ⟨symbolicName, hsymbolic, hi⟩ := bind_eq_ok.mp hi
  obtain ⟨constraint, hconstraint, hi⟩ := bind_eq_ok.mp hi
  obtain ⟨_, -, hi⟩ := bind_eq_ok.mp hi
  cases hi
  exact List.forall_mem_cons.mpr ⟨h.name hsymbolic,
    List.forall_mem_singleton.mpr (h.name hconstraint)⟩

/-- What is read from the items of a list has what is read from well named nodes. -/
theorem readItems_named {α : Type} {read : Node → Reading α} {Q : α → Prop} (h : x.Only P)
    (hread : ∀ y a, y.Only P → read y = .ok a → Q a) {items : List Node}
    (hitems : x.listOrEmpty key = .ok items) {results : List α}
    (hresults : items.mapM read = .ok results) : ∀ a ∈ results, Q a :=
  forall_of_mapM_eq_ok hresults fun item hitem a ha =>
    hread item a (h.listOrEmpty hitems item hitem) ha

variable {types : TypeTable} {op : Operation}

theorem operandAndField_named {make : InstrId → String → Operation} {operand member : String}
    (hmake : ∀ a field, (make a field).names = [field]) (h : x.Only P) :
    Ensures (operandAndField make operand member types x) fun op => ∀ name ∈ op.names, P name := by
  intro op hop
  obtain ⟨_, -, hop⟩ := bind_eq_ok.mp hop
  obtain ⟨field, hfield, hop⟩ := bind_eq_ok.mp hop
  cases hop
  rw [hmake]
  exact List.forall_mem_singleton.mpr (h.name hfield)

theorem readDeclVar_named (h : x.Only P) :
    Ensures (readDeclVar types x) fun op => ∀ name ∈ op.names, P name := by
  intro op hop
  obtain ⟨slot, hslot, hop⟩ := bind_eq_ok.mp hop
  have hname := List.forall_mem_singleton.mpr (readVariable_named h hslot)
  dsimp only at hop
  split at hop
  · obtain ⟨_, -, hop⟩ := bind_eq_ok.mp hop
    obtain ⟨_, -, hop⟩ := bind_eq_ok.mp hop
    cases hop
    exact hname
  · obtain ⟨_, -, hop⟩ := bind_eq_ok.mp hop
    obtain ⟨_, -, hop⟩ := bind_eq_ok.mp hop
    cases hop
    exact hname

theorem readVarPtr_named (h : x.Only P) :
    Ensures (Operation.varPtr <$> readVariable x) fun op => ∀ name ∈ op.names, P name := by
  intro op hop
  obtain ⟨slot, hslot, rfl⟩ := map_eq_ok.mp hop
  exact List.forall_mem_singleton.mpr (readVariable_named h hslot)

theorem readCast_named (ht : types.Answers P) (h : x.Only P) :
    Ensures (readCast types x) fun op => ∀ name ∈ op.names, P name := by
  intro op hop
  obtain ⟨_, -, hop⟩ := bind_eq_ok.mp hop
  obtain ⟨dest, hdest, hop⟩ := bind_eq_ok.mp hop
  obtain ⟨type, htype, hop⟩ := bind_eq_ok.mp hop
  cases hop
  exact List.forall_mem_singleton.mpr (ht dest type (h.field hdest) htype).name

theorem readCall_named (h : x.Only P) :
    Ensures (readCall types x) fun op => ∀ name ∈ op.names, P name := by
  intro op hop
  obtain ⟨node, hnode, hop⟩ := bind_eq_ok.mp hop
  obtain ⟨callee, hcallee, hop⟩ := bind_eq_ok.mp hop
  obtain ⟨_, -, hop⟩ := bind_eq_ok.mp hop
  cases hop
  unfold readCallee at hcallee
  split at hcallee
  · rename_i symbol hsymbol
    cases hcallee
    have hmention : node.doc.Mentions symbol := by
      rw [hsymbol]
      exact .text symbol
    exact List.forall_mem_singleton.mpr (h.field hnode symbol hmention)
  · obtain ⟨_, -, rfl⟩ := map_eq_ok.mp hcallee
    exact nofun

theorem readContainerInitFields_named (h : x.Only P) :
    Ensures (readContainerInitFields types x) fun op => ∀ name ∈ op.names, P name := by
  intro op hop
  obtain ⟨_, -, hop⟩ := bind_eq_ok.mp hop
  obtain ⟨items, hitems, hop⟩ := bind_eq_ok.mp hop
  obtain ⟨fields, hfields, hop⟩ := bind_eq_ok.mp hop
  cases hop
  exact List.forall_mem_map.mpr
    (readItems_named h (fun _ _ hy => readFieldInit_named hy) hitems hfields)

theorem readStructInit_named (ht : types.Answers P) (h : x.Only P) :
    Ensures (readStructInit types x) fun op => ∀ name ∈ op.names, P name := by
  intro op hop
  obtain ⟨node, hnode, hop⟩ := bind_eq_ok.mp hop
  obtain ⟨type, htype, hop⟩ := bind_eq_ok.mp hop
  obtain ⟨items, hitems, hop⟩ := bind_eq_ok.mp hop
  obtain ⟨fields, hfields, hop⟩ := bind_eq_ok.mp hop
  cases hop
  refine List.forall_mem_cons.mpr ⟨(ht node type (h.field hnode) htype).name, ?_⟩
  exact List.forall_mem_map.mpr
    (readItems_named h (fun _ _ hy => readStructField_named hy) hitems hfields)

theorem readAsm_named (h : x.Only P) :
    Ensures (readAsm types x) fun op => ∀ name ∈ op.names, P name := by
  intro op hop
  obtain ⟨template, htemplate, hop⟩ := bind_eq_ok.mp hop
  obtain ⟨outputItems, houtputItems, hop⟩ := bind_eq_ok.mp hop
  obtain ⟨outputs, houtputs, hop⟩ := bind_eq_ok.mp hop
  obtain ⟨inputItems, hinputItems, hop⟩ := bind_eq_ok.mp hop
  obtain ⟨inputs, hinputs, hop⟩ := bind_eq_ok.mp hop
  obtain ⟨clobberItems, hclobberItems, hop⟩ := bind_eq_ok.mp hop
  obtain ⟨clobbers, hclobbers, hop⟩ := bind_eq_ok.mp hop
  obtain ⟨_, -, hop⟩ := bind_eq_ok.mp hop
  cases hop
  have houtputs := readItems_named h (fun _ _ hy => readAsmOutput_named hy) houtputItems houtputs
  have hinputs := readItems_named h (fun _ _ hy => readAsmInput_named hy) hinputItems hinputs
  have hclobbers := readItems_named (Q := P) h (fun _ _ hy => hy.text) hclobberItems hclobbers
  intro name hname
  simp only [Operation.names, List.mem_cons, List.mem_append, List.mem_flatMap] at hname
  rcases hname with ((rfl | ⟨o, ho, hname⟩) | ⟨i, hi, hname⟩) | hname
  · exact h.name htemplate
  · exact houtputs o ho name hname
  · exact hinputs i hi name hname
  · exact hclobbers name hname

/-- The names of an operation that was read are texts of its entry, or names of types. -/
theorem operation_named (ht : types.Answers P) (h : x.Only P) {kind : String}
    {reader : OperationReader} (hreader : operationReader? kind = some reader) :
    Ensures (reader types x) fun op => ∀ name ∈ op.names, P name := by
  unfold operationReader? at hreader
  split at hreader
  -- The words without a case of their own are those of the two families.
  all_goals first | cases hreader | split at hreader <;> cases hreader
  -- A reader is recognised by its name here: unfolding it for every lemma is slow.
  all_goals first
    | with_reducible first
        | exact readDeclVar_named h
        | exact readCast_named ht h
        | exact readCall_named h
        | exact readContainerInitFields_named h
        | exact readStructInit_named ht h
        | exact readAsm_named h
        | exact readVarPtr_named h
        | exact operandAndField_named (fun _ _ => rfl) h
    | exact ensures_map fun _ => List.forall_mem_nil _
    | repeat refine ensures_bind fun _ => ?_
      exact ensures_pure (List.forall_mem_nil _)

end Operations

/-! ## Constants -/

section Constants

variable {types : TypeTable}

/-- The names of the values that are read are those of their data. -/
theorem readState_named {payload : Node → Reading Data} {names : Data → List String}
    (hpayload : ∀ data, payload x = .ok data → ∀ name ∈ names data, P name) {value : Value}
    (h : readState x payload = .ok value) : ∀ name ∈ value.namesWith names, P name := by
  rcases readState_eq_ok h with ⟨-, rfl | rfl | rfl⟩ | ⟨-, data, hdata, rfl⟩
  · exact List.forall_mem_nil _
  · exact List.forall_mem_nil _
  · exact List.forall_mem_nil _
  · exact hpayload data hdata

theorem readPart_named {payload : Node → Reading Data} {names : Data → List String}
    (hpayload : ∀ data, payload x = .ok data → ∀ name ∈ names data, P name) {value : Value}
    (h : readPart payload x = .ok value) : ∀ name ∈ value.namesWith names, P name :=
  readState_named hpayload (readPart_eq_ok h).1

/-- The names in data that was read are texts of its node, or names of types. -/
theorem readData_named (ht : types.Answers P) {t : Ty} (hnamed : t.Named P) (h : x.Only P)
    {data : Data} (hdata : readData types t x = .ok data) :
    ∀ name ∈ t.dataNames data, P name := by
  induction t generalizing x data with
  | declared name canonical ih => exact ih hnamed.2 h hdata
  | int | float =>
    obtain ⟨_, -, rfl⟩ := map_eq_ok.mp hdata
    exact List.forall_mem_nil _
  | pointer name child isConst ih =>
    obtain ⟨pointee, hpointee, rfl⟩ := map_eq_ok.mp hdata
    exact readPart_named (fun _ => ih hnamed.2 h) hpointee
  | array name child length ih =>
    obtain ⟨items, hitems, hdata⟩ := bind_eq_ok.mp hdata
    split at hdata
    · obtain ⟨elements, helements, hdata⟩ := bind_eq_ok.mp hdata
      cases hdata
      have hparts := forall_of_mapM_eq_ok helements fun item hitem value hvalue =>
        readPart_named (fun _ => ih hnamed.2 (h.list hitems item hitem)) hvalue
      refine List.forall_mem_cons.mpr ⟨hnamed.1, fun s hs => ?_⟩
      obtain ⟨value, hvalue, hs⟩ := List.mem_flatMap.mp hs
      exact hparts value hvalue s hs
    · cases hdata
  | maybe name child ih =>
    unfold readData at hdata
    split at hdata
    · cases hdata
      exact List.forall_mem_nil _
    · obtain ⟨inner, hinner, rfl⟩ := map_eq_ok.mp hdata
      exact readPart_named (fun _ => ih hnamed.2 h) hinner
  | errorUnion name child =>
    cases hdata
    exact List.forall_mem_singleton.mpr hnamed.1
  | aggregate kind name fields =>
    cases hdata
    exact List.forall_mem_singleton.mpr hnamed
  | unrecognised =>
    cases hdata
    exact List.forall_mem_nil _
  | plain kind name =>
    cases kind with
    | metaType =>
      obtain ⟨type, htype, rfl⟩ := map_eq_ok.mp hdata
      exact List.forall_mem_singleton.mpr (ht x type h htype).name
    | fn | namespacePath =>
      obtain ⟨s, hs, rfl⟩ := map_eq_ok.mp hdata
      exact List.forall_mem_singleton.mpr (h.text hs)
    | boundFn =>
      obtain ⟨entry, hentry, hdata⟩ := bind_eq_ok.mp hdata
      obtain ⟨symbol, hsymbol, hdata⟩ := bind_eq_ok.mp hdata
      obtain ⟨_, -, hdata⟩ := bind_eq_ok.mp hdata
      cases hdata
      exact List.forall_mem_singleton.mpr ((h.field hentry).text hsymbol)
    | intLiteral | floatLiteral | bool =>
      obtain ⟨_, -, rfl⟩ := map_eq_ok.mp hdata
      exact List.forall_mem_nil _
    | block =>
      obtain ⟨_, -, hdata⟩ := bind_eq_ok.mp hdata
      obtain ⟨_, -, hdata⟩ := bind_eq_ok.mp hdata
      cases hdata
      exact List.forall_mem_nil _
    | _ =>
      cases hdata
      exact List.forall_mem_nil _

end Constants

/-! ## Entries -/

/-- An instruction whose names have a property: that of its type, those in its operation and
those in its value. -/
structure Instruction.Named (P : String → Prop) (i : Instruction) : Prop where
  type : ∀ t, i.type = some t → P t.name
  operation : ∀ name ∈ i.operation.names, P name
  value : ∀ name ∈ i.constantNames, P name

theorem readEntry_named {types : TypeTable} (ht : types.Answers P) (h : x.Only P)
    {taken : InstrId → Bool} {entry : Entry} (hentry : readEntry types taken x = .ok entry) :
    entry.instruction.Named P := by
  obtain ⟨reader, hreader, hentry⟩ := bind_eq_ok.mp hentry
  obtain ⟨id, -, hentry⟩ := bind_eq_ok.mp hentry
  obtain ⟨type, htype, hentry⟩ := bind_eq_ok.mp hentry
  obtain ⟨_, -, hentry⟩ := bind_eq_ok.mp hentry
  obtain ⟨valueNode, hvalueNode, hentry⟩ := bind_eq_ok.mp hentry
  obtain ⟨_, -, hentry⟩ := bind_eq_ok.mp hentry
  obtain ⟨value, hvalue, hentry⟩ := bind_eq_ok.mp hentry
  obtain ⟨operation, hoperation, hentry⟩ := bind_eq_ok.mp hentry
  cases hentry
  obtain ⟨kind, hkind⟩ := exists_kind_of_readKind hreader
  have htype : ∀ t, type = some t → t.Named P := by
    rintro t rfl
    obtain ⟨node, hnode, htype⟩ := bind_eq_ok.mp htype
    cases node with
    | none => cases htype
    | some node =>
      dsimp only at htype
      split at htype
      · cases htype
      · obtain ⟨_, hlookup, htype⟩ := map_eq_ok.mp htype
        cases htype
        exact ht node t (h.field? hnode) hlookup
  refine ⟨fun t h => (htype t h).name, operation_named ht h hkind _ hoperation, ?_⟩
  cases valueNode with
  | none =>
    cases hvalue
    exact List.forall_mem_nil _
  | some node =>
    unfold readValue at hvalue
    refine readState_named (fun data hdata => ?_) hvalue
    cases type with
    | none => cases hdata
    | some t => exact readData_named ht (htype t rfl) (h.field? hvalueNode) hdata

namespace Description

variable {doc : Doc} {e : Executable}

theorem readTypes_answers (hdoc : ∀ s, doc.Mentions s → P s)
    (hbuiltin : ∀ t ∈ Ty.builtins, P t.name) : (readTypes (.root doc)).1.Answers P := by
  have hroot : (Node.root doc).Only P := hdoc
  intro x type hx htype
  refine TypeTable.NamesOnly.lookup ⟨hbuiltin, ?_⟩ (readTypes_faithful _) hx htype
  intro name declaration hlookup
  obtain ⟨types, htypes, hstep, -⟩ := lookup_readTypes hlookup
  exact (hroot.field? htypes).child hstep

/-- What holds of the texts and keys of a description, and of the names that need none, holds of
the names in its executable. -/
theorem names_of_load (h : (load doc).value = some e) (hdoc : ∀ s, doc.Mentions s → P s)
    (hbuiltin : ∀ t ∈ Ty.builtins, P t.name) (hhint : P defaultHint) :
    (∀ b ∈ e.blocks.values, P b.nameHint) ∧ ∀ i ∈ e.instructions.values, i.Named P := by
  have hroot : (Node.root doc).Only P := hdoc
  obtain ⟨ss, hss, htranscribes⟩ := transcribes_of_load h
  obtain ⟨nodes, hnodes, hss⟩ := bind_eq_ok.mp hss
  obtain ⟨blocks, hblocks, hnodes⟩ := bind_eq_ok.mp hnodes
  have hsections : ∀ s ∈ ss, s.head.Only P ∧ ∀ item ∈ s.items, item.Only P := by
    refine forall_of_mapM_eq_ok hss fun node hnode s hs => ?_
    have hnode := (hroot.field hblocks).list hnodes node hnode
    obtain ⟨items, hitems, hs⟩ := bind_eq_ok.mp hs
    cases hs
    exact ⟨hnode, hnode.listOrEmpty hitems⟩
  constructor
  · intro b hb
    obtain ⟨key, hb⟩ := Table.mem_values_iff.mp hb
    obtain ⟨s, hs, hgives⟩ := exists_of_mem_right htranscribes.blocks hb
    exact (hsections s hs).1.textOr hhint hgives.name
  · intro i hi
    obtain ⟨key, hi⟩ := Table.mem_values_iff.mp hi
    obtain ⟨item, hitem, hgives⟩ := exists_of_mem_right htranscribes.arena hi
    obtain ⟨s, hs, hitem⟩ := List.mem_flatMap.mp hitem
    obtain ⟨read, hread, hi⟩ := hgives.instruction
    have hnamed := readEntry_named (readTypes_answers hdoc hbuiltin) ((hsections s hs).2 item hitem)
      hread
    dsimp only at hi
    rw [hi]
    exact ⟨hnamed.type, hnamed.operation, hnamed.value⟩

end Description

end BlockIr
