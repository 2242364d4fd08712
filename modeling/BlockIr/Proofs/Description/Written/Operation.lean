import BlockIr.Proofs.Description.Node
import BlockIr.Proofs.Description.Operation

/-!
# Writing operations

An operation is written as the fields that its reader asks for, flags included. Where an optional
part is missing, so is its field.

* `Operation.fields`: the fields of an operation.
* `Operation.Writable`: what the reader asks of their contents.
* `Operation.read_fields`: the reader of the kind reads the operation back, whatever else the entry
  says about the instruction.
-/

namespace BlockIr

/-! ## Fields -/

def Variable.toDoc (slot : Variable) : Doc :=
  .map [("name", .text slot.name), ("isConst", .bool slot.isConst),
    ("isInline", .bool slot.isInline)]

def Callee.toDoc : Callee → Doc
  | .fn symbol => .text symbol
  | .operand id => .int id

def PhiEdge.toDoc (edge : PhiEdge) : Doc :=
  .map [("block", .int edge.block), ("value", .int edge.value)]

def SwitchCase.toDoc (c : SwitchCase) : Doc :=
  .map [("value", .int c.value), ("block", .int c.block)]

/-- The field is named under a key of its own in every kind. -/
def FieldInit.toDoc (nameKey : String) (init : FieldInit) : Doc :=
  .map [(nameKey, .text init.field), ("value", .int init.value)]

def AsmTarget.entry : AsmTarget → String × Doc
  | .slot name => ("variable", .text name)
  | .result type => ("returnType", .int type)

def AsmOutput.toDoc (output : AsmOutput) : Doc :=
  .map [("symbolicName", .text output.symbolicName), ("constraint", .text output.constraint),
    output.target.entry]

def AsmInput.toDoc (input : AsmInput) : Doc :=
  .map [("symbolicName", .text input.symbolicName), ("constraint", .text input.constraint),
    ("operand", .int input.operand)]

namespace Operation

/-- The fields of an operation, where `key` tells the keys of types. -/
def fields (key : Ty → String) : Operation → List (String × Doc)
  | ret a => [("operand", .int a)]
  | const | unreachable | unrecognised _ => []
  | binary op lhs rhs => [("op", .text op.word), ("lhs", .int lhs), ("rhs", .int rhs)]
  | unary op a => [("op", .text op.word), ("operand", .int a)]
  | declVar slot none init => [("variable", slot.toDoc), ("init", .int init)]
  | declVar slot (some type) init =>
    [("variable", slot.toDoc), ("varType", .int type), ("init", .int init)]
  | cast a dest => [("operand", .int a), ("destType", .text (key dest))]
  | call callee args => [("callee", callee.toDoc), ("args", .list (args.map .int))]
  | condBr condition thenBlock elseBlock isInline =>
    [("condition", .int condition), ("thenBlock", .int thenBlock), ("elseBlock", .int elseBlock),
     ("isInline", .bool isInline)]
  | br dest isInline => [("dest", .int dest), ("isInline", .bool isInline)]
  | phi incoming => [("incoming", .list (incoming.map PhiEdge.toDoc))]
  | switchBr target cases elseBlock isInline =>
    [("target", .int target), ("cases", .list (cases.map SwitchCase.toDoc)),
     ("elseBlock", .int elseBlock), ("isInline", .bool isInline)]
  | switchVar targetPtr prong => [("targetPtr", .int targetPtr), ("prong", .int prong)]
  | switchTarget targetPtr => [("targetPtr", .int targetPtr)]
  | containerInitList type items =>
    [("containerType", .int type), ("items", .list (items.map .int))]
  | containerInitFields type inits =>
    [("containerType", .int type), ("fields", .list (inits.map (FieldInit.toDoc "name")))]
  | structInit type inits =>
    [("structType", .text (key type)), ("fields", .list (inits.map (FieldInit.toDoc "field")))]
  | elemPtr arrayPtr index checked =>
    [("arrayPtr", .int arrayPtr), ("index", .int index), ("safetyCheckOn", .bool checked)]
  | varPtr slot => [("variable", slot.toDoc)]
  | loadPtr ptr => [("ptr", .int ptr)]
  | storePtr ptr a => [("ptr", .int ptr), ("operand", .int a)]
  | fieldPtr ptr field => [("containerPtr", .int ptr), ("fieldName", .text field)]
  | structFieldPtr ptr field => [("structPtr", .int ptr), ("field", .text field)]
  | enumFieldPtr ptr field => [("enumPtr", .int ptr), ("field", .text field)]
  | testNull a | enumTag a | arrayLen a | ref a => [("operand", .int a)]
  | unwrapMaybe a checked => [("operand", .int a), ("safetyCheckOn", .bool checked)]
  | builtin fn argument => [(fn.argumentField, .int argument)]
  | arrayType size childType => [("size", .int size), ("childType", .int childType)]
  | sliceType childType isConst => [("childType", .int childType), ("isConst", .bool isConst)]
  | setting s subject state => [(s.subjectField, .int subject), (s.stateField, .int state)]
  | asm template outputs inputs clobbers isVolatile =>
    [("template", .text template), ("outputs", .list (outputs.map AsmOutput.toDoc)),
     ("inputs", .list (inputs.map AsmInput.toDoc)), ("clobbers", .list (clobbers.map .text)),
     ("isVolatile", .bool isVolatile)]

/-- Types an operation names. -/
def types : Operation → List Ty
  | cast _ dest => [dest]
  | structInit type _ => [type]
  | _ => []

/-- The keys under which an entry says what every instruction has. -/
def headKeys : List String := ["kind", "id", "type", "refCount", "value"]

/-- Operations whose fields the reader of their kind accepts: ids are indexes, and an aggregate
that declares fields is given no other ones. -/
structure Writable (op : Operation) : Prop where
  recognised : op.Recognised
  operands : ∀ id ∈ op.operands, IsIndex id
  targets : ∀ id ∈ op.targets, IsIndex id
  declared : ∀ type inits, op = .structInit type inits →
    ∀ kind name declared, type.canonical = .aggregate kind name declared → declared ≠ [] →
      ∀ init ∈ inits, init.field ∈ declared

theorem Writable.operand {op : Operation} {a : InstrId} (hop : op.Writable)
    (h : op.operands = [a]) : IsIndex a :=
  hop.operands a (h ▸ List.mem_cons_self)

theorem Writable.operandPair {op : Operation} {a b : InstrId} (hop : op.Writable)
    (h : op.operands = [a, b]) : IsIndex a ∧ IsIndex b :=
  ⟨hop.operands a (h ▸ List.mem_cons_self),
    hop.operands b (h ▸ List.mem_cons_of_mem a List.mem_cons_self)⟩

end Operation

/-! ## Reading parts -/

section Parts

variable {types : TypeTable} {entries : List (String × Doc)} {place : Place} {key : String}

namespace Node

theorem ids_map {ids : List Int} (h : entries.lookup key = some (.list (ids.map .int)))
    (hids : ∀ id ∈ ids, IsIndex id) : (⟨.map entries, place⟩ : Node).ids key = .ok ids := by
  rw [Node.ids, listOrEmpty_map h, ok_bind]
  exact mapM_itemsAt fun id hid _ => index_int (hids id hid)

theorem name_map {s : String} (h : entries.lookup key = some (.text s)) :
    (⟨.map entries, place⟩ : Node).name key = .ok s := by
  rw [name, field_map h]
  rfl

end Node

theorem readVariable_map {slot : Variable} (h : entries.lookup "variable" = some slot.toDoc) :
    readVariable ⟨.map entries, place⟩ = .ok slot := by
  rw [readVariable, Node.field_map h, ok_bind, Variable.toDoc, Node.name_map (s := slot.name) rfl,
    ok_bind, Node.boolOr_map (b := slot.isConst) rfl, ok_bind,
    Node.boolOr_map (b := slot.isInline) rfl]
  rfl

theorem readCallee_toDoc {callee : Callee} (h : ∀ id ∈ callee.operands, IsIndex id) :
    readCallee ⟨callee.toDoc, place⟩ = .ok callee := by
  cases callee with
  | fn symbol => rfl
  | operand id =>
    have hid := h id List.mem_cons_self
    simp only [readCallee, Callee.toDoc, Node.index_int hid, map_ok]

theorem readPhiEdge_toDoc {edge : PhiEdge} (hblock : IsIndex edge.block)
    (hvalue : IsIndex edge.value) : readPhiEdge ⟨edge.toDoc, place⟩ = .ok edge := by
  rw [readPhiEdge, PhiEdge.toDoc, Node.id_map rfl hblock, ok_bind, Node.id_map rfl hvalue]
  rfl

theorem readSwitchCase_toDoc {c : SwitchCase} (hvalue : IsIndex c.value)
    (hblock : IsIndex c.block) : readSwitchCase ⟨c.toDoc, place⟩ = .ok c := by
  rw [readSwitchCase, SwitchCase.toDoc, Node.id_map rfl hvalue, ok_bind, Node.id_map rfl hblock]
  rfl

theorem readFieldInit_toDoc {init : FieldInit} (h : IsIndex init.value) :
    readFieldInit ⟨init.toDoc "name", place⟩ = .ok init := by
  rw [readFieldInit, FieldInit.toDoc, Node.name_map (s := init.field) rfl, ok_bind,
    Node.id_map rfl h]
  rfl

theorem readFieldOf_text {type : Ty} {field : String}
    (h : ∀ kind name declared, type.canonical = .aggregate kind name declared → declared ≠ [] →
      field ∈ declared) : readFieldOf type ⟨.text field, place⟩ = .ok field := by
  simp only [readFieldOf, Node.text, ok_bind]
  split
  · rename_i kind name declared hcanonical
    refine if_pos ?_
    rw [Bool.or_eq_true, List.isEmpty_iff, List.contains_iff_mem]
    by_cases hnone : declared = []
    · exact .inl hnone
    · exact .inr (h kind name declared hcanonical hnone)
  · rfl

theorem readStructField_toDoc {type : Ty} {init : FieldInit} (hvalue : IsIndex init.value)
    (h : ∀ kind name declared, type.canonical = .aggregate kind name declared → declared ≠ [] →
      init.field ∈ declared) :
    readStructField type ⟨init.toDoc "field", place⟩ = .ok init := by
  rw [readStructField, FieldInit.toDoc, Node.field_map (d := .text init.field) rfl, ok_bind,
    readFieldOf_text h, ok_bind, Node.id_map rfl hvalue]
  rfl

theorem readAsmOutput_toDoc {output : AsmOutput} (h : ∀ id ∈ output.target.operands, IsIndex id) :
    readAsmOutput ⟨output.toDoc, place⟩ = .ok output := by
  obtain ⟨symbolicName, constraint, target⟩ := output
  rw [readAsmOutput, AsmOutput.toDoc, Node.name_map (s := symbolicName) rfl, ok_bind,
    Node.name_map (s := constraint) rfl, ok_bind]
  cases target with
  | slot name =>
    rw [readAsmTarget, if_neg (by exact Bool.false_ne_true), Node.name_map (s := name) rfl]
    rfl
  | result type =>
    rw [readAsmTarget, if_pos (by rfl), Node.id_map (n := type) rfl (h type List.mem_cons_self)]
    rfl

theorem readAsmInput_toDoc {input : AsmInput} (h : IsIndex input.operand) :
    readAsmInput ⟨input.toDoc, place⟩ = .ok input := by
  rw [readAsmInput, AsmInput.toDoc, Node.name_map (s := input.symbolicName) rfl, ok_bind,
    Node.name_map (s := input.constraint) rfl, ok_bind, Node.id_map rfl h]
  rfl

/-! ## Families of kinds -/

theorem oneOperand_map {make : InstrId → Operation} {a : InstrId}
    (h : entries.lookup key = some (.int a)) (ha : IsIndex a) :
    oneOperand make key types ⟨.map entries, place⟩ = .ok (make a) := by
  rw [oneOperand, Node.id_map h ha]
  rfl

theorem twoOperands_map {make : InstrId → InstrId → Operation} {key' : String} {a b : InstrId}
    (h : entries.lookup key = some (.int a)) (h' : entries.lookup key' = some (.int b))
    (ha : IsIndex a) (hb : IsIndex b) :
    twoOperands make key key' types ⟨.map entries, place⟩ = .ok (make a b) := by
  rw [twoOperands, Node.id_map h ha, ok_bind, Node.id_map h' hb]
  rfl

theorem operandAndFlag_map {make : Int → Bool → Operation} {flag : String} {default : Bool}
    {a : Int} {b : Bool} (h : entries.lookup key = some (.int a))
    (hflag : entries.lookup flag = some (.bool b)) (ha : IsIndex a) :
    operandAndFlag make key flag default types ⟨.map entries, place⟩ = .ok (make a b) := by
  rw [operandAndFlag, Node.id_map h ha, ok_bind, Node.boolOr_map hflag]
  rfl

theorem operandAndField_map {make : InstrId → String → Operation} {field : String} {a : InstrId}
    {s : String} (h : entries.lookup key = some (.int a))
    (hfield : entries.lookup field = some (.text s)) (ha : IsIndex a) :
    operandAndField make key field types ⟨.map entries, place⟩ = .ok (make a s) := by
  rw [operandAndField, Node.id_map h ha, ok_bind, Node.name_map hfield]
  rfl

end Parts

/-! ## Operations -/

namespace Operation

/-- An entry whose fields beyond the common ones are those of `op`. -/
def FieldsIn (key : Ty → String) (op : Operation) (entries : List (String × Doc)) : Prop :=
  ∀ k ∉ headKeys, entries.lookup k = (op.fields key).lookup k

theorem FieldsIn.lookup {key : Ty → String} {op : Operation} {entries : List (String × Doc)}
    (h : op.FieldsIn key entries) (k : String) (hk : headKeys.contains k = false) :
    entries.lookup k = (op.fields key).lookup k := by
  apply h
  intro hmem
  rw [List.contains_iff_mem.mpr hmem] at hk
  cases hk

section Kinds

variable {types : TypeTable} {key : Ty → String} {entries : List (String × Doc)} {place : Place}

theorem readBinary_fields {op : BinaryOp} {lhs rhs : InstrId} (hop : (binary op lhs rhs).Writable)
    (h : (binary op lhs rhs).FieldsIn key entries) :
    readBinary types ⟨.map entries, place⟩ = .ok (binary op lhs rhs) := by
  obtain ⟨hlhs, hrhs⟩ := hop.operandPair rfl
  rw [readBinary, Node.field_map (h.lookup "op" rfl), ok_bind,
    Node.word_text (BinaryOp.ofWord?_word op), ok_bind, Node.id_map (h.lookup "lhs" rfl) hlhs,
    ok_bind, Node.id_map (h.lookup "rhs" rfl) hrhs]
  rfl

theorem readUnary_fields {op : UnaryOp} {a : InstrId} (hop : (unary op a).Writable)
    (h : (unary op a).FieldsIn key entries) :
    readUnary types ⟨.map entries, place⟩ = .ok (unary op a) := by
  have ha : IsIndex a := hop.operand rfl
  rw [readUnary, Node.field_map (h.lookup "op" rfl), ok_bind,
    Node.word_text (UnaryOp.ofWord?_word op), ok_bind, Node.id_map (h.lookup "operand" rfl) ha]
  rfl

theorem readDeclVar_fields {slot : Variable} {type : Option InstrId} {init : InstrId}
    (hop : (declVar slot type init).Writable) (h : (declVar slot type init).FieldsIn key entries) :
    readDeclVar types ⟨.map entries, place⟩ = .ok (declVar slot type init) := by
  have hinit : IsIndex init := hop.operands init (List.mem_append_right _ List.mem_cons_self)
  unfold readDeclVar
  cases type with
  | none =>
    have habsent : ¬ (⟨.map entries, place⟩ : Node).has "varType" = true := by
      rw [Node.has_map, h.lookup "varType" rfl]
      exact Bool.false_ne_true
    rw [readVariable_map (h.lookup "variable" rfl), ok_bind]
    simp only [if_neg habsent, pure_eq_ok, ok_bind]
    rw [Node.id_map (h.lookup "init" rfl) hinit]
    rfl
  | some type =>
    have htype : IsIndex type := hop.operands type List.mem_cons_self
    have hpresent : (⟨.map entries, place⟩ : Node).has "varType" = true := by
      rw [Node.has_map, h.lookup "varType" rfl]
      rfl
    rw [readVariable_map (h.lookup "variable" rfl), ok_bind]
    simp only [if_pos hpresent]
    rw [Node.id_map (h.lookup "varType" rfl) htype, map_ok, ok_bind,
      Node.id_map (h.lookup "init" rfl) hinit]
    rfl

theorem readCast_fields {a : InstrId} {dest : Ty} (hop : (cast a dest).Writable)
    (htypes : ∀ t ∈ (cast a dest).types, ∀ place,
      types.lookup ⟨.text (key t), place⟩ = .ok t)
    (h : (cast a dest).FieldsIn key entries) :
    readCast types ⟨.map entries, place⟩ = .ok (cast a dest) := by
  have ha : IsIndex a := hop.operand rfl
  rw [readCast, Node.id_map (h.lookup "operand" rfl) ha, ok_bind,
    Node.field_map (h.lookup "destType" rfl), ok_bind, htypes dest List.mem_cons_self]
  rfl

theorem readCall_fields {callee : Callee} {args : List InstrId} (hop : (call callee args).Writable)
    (h : (call callee args).FieldsIn key entries) :
    readCall types ⟨.map entries, place⟩ = .ok (call callee args) := by
  have hcallee : ∀ id ∈ callee.operands, IsIndex id :=
    fun id hid => hop.operands id (List.mem_append_left _ hid)
  have hargs : ∀ id ∈ args, IsIndex id :=
    fun id hid => hop.operands id (List.mem_append_right _ hid)
  rw [readCall, Node.field_map (h.lookup "callee" rfl), ok_bind, readCallee_toDoc hcallee, ok_bind,
    Node.ids_map (h.lookup "args" rfl) hargs]
  rfl

theorem readCondBr_fields {condition : InstrId} {thenBlock elseBlock : BlockId} {isInline : Bool}
    (hop : (condBr condition thenBlock elseBlock isInline).Writable)
    (h : (condBr condition thenBlock elseBlock isInline).FieldsIn key entries) :
    readCondBr types ⟨.map entries, place⟩ =
      .ok (condBr condition thenBlock elseBlock isInline) := by
  have hcondition : IsIndex condition := hop.operand rfl
  have hthen : IsIndex thenBlock := hop.targets thenBlock List.mem_cons_self
  have helse : IsIndex elseBlock :=
    hop.targets elseBlock (List.mem_cons_of_mem _ List.mem_cons_self)
  rw [readCondBr, Node.id_map (h.lookup "condition" rfl) hcondition, ok_bind,
    Node.id_map (h.lookup "thenBlock" rfl) hthen, ok_bind,
    Node.id_map (h.lookup "elseBlock" rfl) helse, ok_bind,
    Node.boolOr_map (h.lookup "isInline" rfl)]
  rfl

theorem readPhi_fields {incoming : List PhiEdge} (hop : (phi incoming).Writable)
    (h : (phi incoming).FieldsIn key entries) :
    readPhi types ⟨.map entries, place⟩ = .ok (phi incoming) := by
  have hincoming : ∀ edge ∈ incoming, ∀ place, readPhiEdge ⟨edge.toDoc, place⟩ = .ok edge :=
    fun edge hedge _ => readPhiEdge_toDoc (hop.targets _ (List.mem_map_of_mem hedge))
      (hop.operands _ (List.mem_map_of_mem hedge))
  rw [readPhi, Node.listOrEmpty_map (h.lookup "incoming" rfl), ok_bind,
    Node.mapM_itemsAt hincoming]
  rfl

theorem readSwitchBr_fields {target : InstrId} {cases : List SwitchCase} {elseBlock : BlockId}
    {isInline : Bool} (hop : (switchBr target cases elseBlock isInline).Writable)
    (h : (switchBr target cases elseBlock isInline).FieldsIn key entries) :
    readSwitchBr types ⟨.map entries, place⟩ =
      .ok (switchBr target cases elseBlock isInline) := by
  have htarget : IsIndex target := hop.operands target List.mem_cons_self
  have helse : IsIndex elseBlock :=
    hop.targets elseBlock (List.mem_append_right _ List.mem_cons_self)
  have hcases : ∀ c ∈ cases, ∀ place, readSwitchCase ⟨c.toDoc, place⟩ = .ok c :=
    fun c hc _ => readSwitchCase_toDoc
      (hop.operands _ (List.mem_cons_of_mem _ (List.mem_map_of_mem hc)))
      (hop.targets _ (List.mem_append_left _ (List.mem_map_of_mem hc)))
  rw [readSwitchBr, Node.id_map (h.lookup "target" rfl) htarget, ok_bind,
    Node.listOrEmpty_map (h.lookup "cases" rfl), ok_bind, Node.mapM_itemsAt hcases, ok_bind,
    Node.id_map (h.lookup "elseBlock" rfl) helse, ok_bind,
    Node.boolOr_map (h.lookup "isInline" rfl)]
  rfl

theorem readContainerInitList_fields {type : InstrId} {items : List InstrId}
    (hop : (containerInitList type items).Writable)
    (h : (containerInitList type items).FieldsIn key entries) :
    readContainerInitList types ⟨.map entries, place⟩ = .ok (containerInitList type items) := by
  have htype : IsIndex type := hop.operands type List.mem_cons_self
  have hitems : ∀ id ∈ items, IsIndex id :=
    fun id hid => hop.operands id (List.mem_cons_of_mem _ hid)
  rw [readContainerInitList, Node.id_map (h.lookup "containerType" rfl) htype, ok_bind,
    Node.ids_map (h.lookup "items" rfl) hitems]
  rfl

theorem readContainerInitFields_fields {type : InstrId} {inits : List FieldInit}
    (hop : (containerInitFields type inits).Writable)
    (h : (containerInitFields type inits).FieldsIn key entries) :
    readContainerInitFields types ⟨.map entries, place⟩ =
      .ok (containerInitFields type inits) := by
  have htype : IsIndex type := hop.operands type List.mem_cons_self
  have hinits : ∀ init ∈ inits, ∀ place, readFieldInit ⟨init.toDoc "name", place⟩ = .ok init :=
    fun init hinit _ => readFieldInit_toDoc
      (hop.operands _ (List.mem_cons_of_mem _ (List.mem_map_of_mem hinit)))
  rw [readContainerInitFields, Node.id_map (h.lookup "containerType" rfl) htype, ok_bind,
    Node.listOrEmpty_map (h.lookup "fields" rfl), ok_bind, Node.mapM_itemsAt hinits]
  rfl

theorem readStructInit_fields {type : Ty} {inits : List FieldInit}
    (hop : (structInit type inits).Writable)
    (htypes : ∀ t ∈ (structInit type inits).types, ∀ place,
      types.lookup ⟨.text (key t), place⟩ = .ok t)
    (h : (structInit type inits).FieldsIn key entries) :
    readStructInit types ⟨.map entries, place⟩ = .ok (structInit type inits) := by
  have hinits : ∀ init ∈ inits, ∀ place,
      readStructField type ⟨init.toDoc "field", place⟩ = .ok init :=
    fun init hinit _ => readStructField_toDoc (hop.operands _ (List.mem_map_of_mem hinit))
      fun kind name declared hcanonical hsome =>
        hop.declared type inits rfl kind name declared hcanonical hsome init hinit
  rw [readStructInit, Node.field_map (h.lookup "structType" rfl), ok_bind,
    htypes type List.mem_cons_self, ok_bind, Node.listOrEmpty_map (h.lookup "fields" rfl),
    ok_bind, Node.mapM_itemsAt hinits]
  rfl

theorem readElemPtr_fields {arrayPtr index : InstrId} {checked : Bool}
    (hop : (elemPtr arrayPtr index checked).Writable)
    (h : (elemPtr arrayPtr index checked).FieldsIn key entries) :
    readElemPtr types ⟨.map entries, place⟩ = .ok (elemPtr arrayPtr index checked) := by
  obtain ⟨hptr, hindex⟩ := hop.operandPair rfl
  rw [readElemPtr, Node.id_map (h.lookup "arrayPtr" rfl) hptr, ok_bind,
    Node.id_map (h.lookup "index" rfl) hindex, ok_bind,
    Node.boolOr_map (h.lookup "safetyCheckOn" rfl)]
  rfl

theorem readAsm_fields {template : String} {outputs : List AsmOutput} {inputs : List AsmInput}
    {clobbers : List String} {isVolatile : Bool}
    (hop : (asm template outputs inputs clobbers isVolatile).Writable)
    (h : (asm template outputs inputs clobbers isVolatile).FieldsIn key entries) :
    readAsm types ⟨.map entries, place⟩ =
      .ok (asm template outputs inputs clobbers isVolatile) := by
  have houtputs : ∀ output ∈ outputs, ∀ place,
      readAsmOutput ⟨output.toDoc, place⟩ = .ok output :=
    fun output houtput _ => readAsmOutput_toDoc fun id hid =>
      hop.operands id (List.mem_append_left _ (List.mem_flatMap.mpr ⟨output, houtput, hid⟩))
  have hinputs : ∀ input ∈ inputs, ∀ place, readAsmInput ⟨input.toDoc, place⟩ = .ok input :=
    fun input hinput _ => readAsmInput_toDoc
      (hop.operands _ (List.mem_append_right _ (List.mem_map_of_mem hinput)))
  rw [readAsm, Node.name_map (h.lookup "template" rfl), ok_bind,
    Node.listOrEmpty_map (h.lookup "outputs" rfl), ok_bind, Node.mapM_itemsAt houtputs, ok_bind,
    Node.listOrEmpty_map (h.lookup "inputs" rfl), ok_bind, Node.mapM_itemsAt hinputs, ok_bind,
    Node.listOrEmpty_map (h.lookup "clobbers" rfl), ok_bind,
    Node.mapM_itemsAt fun clobber _ _ => rfl, ok_bind,
    Node.boolOr_map (h.lookup "isVolatile" rfl)]
  rfl

theorem operationReader?_builtin (fn : Builtin) :
    operationReader? fn.word = some (oneOperand (.builtin fn) fn.argumentField) := by
  cases fn <;> rfl

theorem operationReader?_setting (s : Setting) :
    operationReader? s.word = some (twoOperands (.setting s) s.subjectField s.stateField) := by
  cases s <;> rfl

/-- The fields of an operation are read back by the reader of its kind. -/
theorem read_fields (place : Place) {op : Operation} (hop : op.Writable)
    (htypes : ∀ t ∈ op.types, ∀ place, types.lookup ⟨.text (key t), place⟩ = .ok t)
    (h : op.FieldsIn key entries) :
    ∃ reader, operationReader? op.kindWord = some reader ∧
      reader types ⟨.map entries, place⟩ = .ok op := by
  cases op with
  | const | unreachable => exact ⟨_, rfl, rfl⟩
  | binary => exact ⟨_, rfl, readBinary_fields hop h⟩
  | unary => exact ⟨_, rfl, readUnary_fields hop h⟩
  | declVar => exact ⟨_, rfl, readDeclVar_fields hop h⟩
  | cast => exact ⟨_, rfl, readCast_fields hop htypes h⟩
  | call => exact ⟨_, rfl, readCall_fields hop h⟩
  | condBr => exact ⟨_, rfl, readCondBr_fields hop h⟩
  | phi => exact ⟨_, rfl, readPhi_fields hop h⟩
  | switchBr => exact ⟨_, rfl, readSwitchBr_fields hop h⟩
  | containerInitList => exact ⟨_, rfl, readContainerInitList_fields hop h⟩
  | containerInitFields => exact ⟨_, rfl, readContainerInitFields_fields hop h⟩
  | structInit => exact ⟨_, rfl, readStructInit_fields hop htypes h⟩
  | elemPtr => exact ⟨_, rfl, readElemPtr_fields hop h⟩
  | asm => exact ⟨_, rfl, readAsm_fields hop h⟩
  | varPtr slot =>
    refine ⟨_, rfl, ?_⟩
    simp only [readVariable_map (h.lookup "variable" rfl), map_ok]
  | ret | testNull | enumTag | arrayLen | ref =>
    exact ⟨_, rfl, oneOperand_map (h.lookup "operand" rfl) (hop.operand rfl)⟩
  | switchTarget =>
    exact ⟨_, rfl, oneOperand_map (h.lookup "targetPtr" rfl) (hop.operand rfl)⟩
  | loadPtr => exact ⟨_, rfl, oneOperand_map (h.lookup "ptr" rfl) (hop.operand rfl)⟩
  | switchVar =>
    exact ⟨_, rfl, twoOperands_map (h.lookup "targetPtr" rfl) (h.lookup "prong" rfl)
      (hop.operandPair rfl).1 (hop.operandPair rfl).2⟩
  | storePtr =>
    exact ⟨_, rfl, twoOperands_map (h.lookup "ptr" rfl) (h.lookup "operand" rfl)
      (hop.operandPair rfl).1 (hop.operandPair rfl).2⟩
  | arrayType =>
    exact ⟨_, rfl, twoOperands_map (h.lookup "size" rfl) (h.lookup "childType" rfl)
      (hop.operandPair rfl).1 (hop.operandPair rfl).2⟩
  | br =>
    exact ⟨_, rfl, operandAndFlag_map (h.lookup "dest" rfl) (h.lookup "isInline" rfl)
      (hop.targets _ List.mem_cons_self)⟩
  | unwrapMaybe =>
    exact ⟨_, rfl, operandAndFlag_map (h.lookup "operand" rfl) (h.lookup "safetyCheckOn" rfl)
      (hop.operand rfl)⟩
  | sliceType =>
    exact ⟨_, rfl, operandAndFlag_map (h.lookup "childType" rfl) (h.lookup "isConst" rfl)
      (hop.operand rfl)⟩
  | fieldPtr =>
    exact ⟨_, rfl, operandAndField_map (h.lookup "containerPtr" rfl) (h.lookup "fieldName" rfl)
      (hop.operand rfl)⟩
  | structFieldPtr =>
    exact ⟨_, rfl, operandAndField_map (h.lookup "structPtr" rfl) (h.lookup "field" rfl)
      (hop.operand rfl)⟩
  | enumFieldPtr =>
    exact ⟨_, rfl, operandAndField_map (h.lookup "enumPtr" rfl) (h.lookup "field" rfl)
      (hop.operand rfl)⟩
  | builtin fn argument =>
    refine ⟨_, operationReader?_builtin fn, oneOperand_map ?_ (hop.operand rfl)⟩
    rw [h.lookup fn.argumentField (by cases fn <;> rfl)]
    exact List.lookup_cons_self
  | setting s subject state =>
    refine ⟨_, operationReader?_setting s, twoOperands_map ?_ ?_ (hop.operandPair rfl).1
      (hop.operandPair rfl).2⟩
    · rw [h.lookup s.subjectField (by cases s <;> rfl)]
      exact List.lookup_cons_self
    · rw [h.lookup s.stateField (by cases s <;> rfl)]
      cases s <;> rfl
  | unrecognised => exact hop.recognised.elim

end Kinds

end Operation

end BlockIr
