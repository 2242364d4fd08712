import BlockIr.Proofs.Description.Load
import BlockIr.Proofs.Description.Written.Parsed

/-!
# Writing executables

A document declares every type of an executable and then lists its blocks, each with the entries
of its instructions. Nothing is left to a default. Loading the document gives the executable
back, down to the order of the arena.

* `Executable.toDoc`: the document.
* `Executable.Describable`: what a description can say.
* `readEntry_toDoc`: the entry of one instruction is read back.
* `Description.load_toDoc`: so is the whole.
-/

namespace BlockIr

namespace Instruction

/-- What an entry says about every instruction, where `key` tells the keys of types. -/
def head (key : Ty → String) (i : Instruction) : List (String × Doc) :=
  [("kind", .text i.operation.kindWord), ("id", .int i.id),
    ("type", (i.type.map fun t => .text (key t)).getD .null), ("refCount", .int i.refCount),
    ("value", i.value.toDoc key)]

/-- The entry of an instruction. -/
def toDoc (key : Ty → String) (i : Instruction) : Doc :=
  .map (i.head key ++ i.operation.fields key)

/-- Types that have to be declared for an instruction. -/
def types (i : Instruction) : List Ty :=
  i.type.toList ++ i.value.types ++ i.operation.types

/-- Instructions a description can give: the numbers are indexes, and the value is one that is
read at the type under the types of some description. -/
structure Describable (i : Instruction) : Prop where
  id : IsIndex i.id
  refCount : IsIndex i.refCount
  type : ∀ t, i.type = some t → t.Declarable
  value : ∃ root node, readValue (Description.readTypes root).1 i.type node = .ok i.value
  operation : i.operation.Writable
  operationTypes : ∀ t ∈ i.operation.types, t.Declarable

variable {i : Instruction}

theorem parsed_toDoc (key : Ty → String) (i : Instruction) : (i.toDoc key).Parsed := by
  refine .map_words _ List.map_append (i.operation.words_fields key) ?_
  refine List.forall_mem_append.mpr ⟨?_, i.operation.parsed_fields key⟩
  cases htype : i.type with
  | none | some =>
    simp [head, htype, Doc.Parsed.null, Doc.Parsed.text, Doc.Parsed.int, Value.parsed_toDoc]

theorem Describable.readsAt (hi : i.Describable) : i.value.ReadsAt i.type := by
  obtain ⟨root, node, hvalue⟩ := hi.value
  exact readValue_reads (Description.readTypes_sound root) hvalue

theorem Describable.types (hi : i.Describable) : ∀ t ∈ i.types, t.Declarable := by
  intro t ht
  rw [Instruction.types, List.mem_append, List.mem_append, Option.mem_toList] at ht
  rcases ht with (ht | ht) | ht
  · exact hi.type t ht
  · exact hi.readsAt.types t ht
  · exact hi.operationTypes t ht

end Instruction

/-! ## One entry -/

section Entries

variable {types : TypeTable} {key : Ty → String} {place : Place} {i : Instruction}

theorem readType_toDoc (h : ∀ t, i.type = some t → ∀ place,
    types.lookup ⟨.text (key t), place⟩ = .ok t) :
    readType types ⟨i.toDoc key, place⟩ = .ok i.type := by
  have hentry : (⟨i.toDoc key, place⟩ : Node).field? "type" = .ok (some
      ⟨(i.type.map fun t => .text (key t)).getD .null, place ++ [.key "type"]⟩) := rfl
  rw [readType, hentry, ok_bind]
  cases htype : i.type with
  | none => rfl
  | some t =>
    simp only [Option.map_some, Option.getD_some, h t htype, map_ok]
    rfl

theorem fieldsIn_toDoc :
    i.operation.FieldsIn key (i.head key ++ i.operation.fields key) := by
  intro k hk
  have hhead : (i.head key).lookup k = none := by
    rw [List.lookup_eq_none_iff]
    intro entry hentry
    have hmem : entry.1 ∈ Operation.headKeys := List.mem_map_of_mem (f := Prod.fst) hentry
    exact bne_iff_ne.mpr fun heq => hk (heq ▸ hmem)
  rw [List.lookup_append, hhead, Option.none_or]

theorem readFreshId_toDoc {taken : Int → Bool} {cause : Int → Cause} (hi : IsIndex i.id)
    (hfresh : taken i.id = false) :
    readFreshId ⟨i.toDoc key, place⟩ taken cause = .ok i.id := by
  rw [readFreshId, Instruction.toDoc, Node.field_map (d := .int i.id) rfl, ok_bind,
    Node.index_int hi, ok_bind]
  exact if_neg (Bool.eq_false_iff.mp hfresh)

/-- The entry of an instruction with a fresh id is read back. -/
theorem readEntry_toDoc (place : Place) {taken : InstrId → Bool} (hi : i.Describable)
    (htypes : ∀ t ∈ i.types, ∀ place, types.lookup ⟨.text (key t), place⟩ = .ok t)
    (hfresh : taken i.id = false) :
    ∃ node, readEntry types taken ⟨i.toDoc key, place⟩ = .ok ⟨i, true, some node⟩ := by
  simp only [Instruction.types, List.forall_mem_append, Option.mem_toList] at htypes
  obtain ⟨⟨htype, hvalueTypes⟩, hoperationTypes⟩ := htypes
  obtain ⟨reader, hreader, hread⟩ :=
    Operation.read_fields place hi.operation hoperationTypes fieldsIn_toDoc
  have hkind : readKind ⟨i.toDoc key, place⟩ = .ok reader := by
    rw [readKind, Instruction.toDoc, Node.field_map (d := .text i.operation.kindWord) rfl,
      ok_bind, Node.word_text hreader]
  refine ⟨⟨i.value.toDoc key, place ++ [.key "value"]⟩, ?_⟩
  have hcount : (⟨i.toDoc key, place⟩ : Node).field? "refCount" =
      .ok (some ⟨.int i.refCount, place ++ [.key "refCount"]⟩) := rfl
  have hvalue : (⟨i.toDoc key, place⟩ : Node).field? "value" =
      .ok (some ⟨i.value.toDoc key, place ++ [.key "value"]⟩) := rfl
  rw [readEntry, hkind, ok_bind, readFreshId_toDoc hi.id hfresh, ok_bind, readType_toDoc htype,
    ok_bind, hcount, ok_bind, hvalue, ok_bind, readUseCount, Node.index_int hi.refCount, ok_bind,
    readValue_toDoc hi.readsAt hvalueTypes, ok_bind, Instruction.toDoc, hread]
  rfl

end Entries

/-! ## Executables -/

namespace Executable

/-- Instructions of a block in order. -/
def listed (e : Executable) (b : Block) : List Instruction :=
  b.instructions.filterMap e.instructions.find?

/-- The entry of a block. -/
def blockDoc (e : Executable) (key : Ty → String) (b : Block) : Doc :=
  .map [("id", .int b.id), ("name", .text b.nameHint),
    ("instructions", .list ((e.listed b).map (Instruction.toDoc key)))]

/-- Types that have to be declared, each after its parts. -/
def types (e : Executable) : List Ty :=
  (e.instructions.values.flatMap Instruction.types).flatMap Ty.parts

/-- The document of an executable. -/
def toDoc (e : Executable) : Doc :=
  .map [("types", .map (typeEntries e.types)),
    ("blocks", .list (e.blocks.values.map (e.blockDoc (typeKey e.types))))]

theorem parsed_toDoc (e : Executable) : e.toDoc.Parsed := by
  have hblock (key : Ty → String) (b : Block) : (e.blockDoc key b).Parsed :=
    .map_words ["id", "name", "instructions"] rfl (by decide)
      (by simp [Doc.Parsed.int, Doc.Parsed.text, Doc.Parsed.list_map, Instruction.parsed_toDoc])
  exact .map_words ["types", "blocks"] rfl (by decide)
    (by simp [parsed_typeEntries, Doc.Parsed.list_map, hblock])

/-- Executables a description can give. Every entry stands under its own id, and the arena is the
lists of the blocks one after the other, so every instruction is listed exactly once. -/
structure Describable (e : Executable) : Prop where
  ownBlocks : ∀ id b, (id, b) ∈ e.blocks.entries → b.id = id
  own : ∀ id i, (id, i) ∈ e.instructions.entries → i.id = id
  arena : e.instructions.keys = e.blocks.values.flatMap Block.instructions
  blocks : ∀ b ∈ e.blocks.values, IsIndex b.id
  instructions : ∀ i ∈ e.instructions.values, i.Describable
  references : ∀ i ∈ e.instructions.values, ∀ id ∈ i.references, id ∈ e.instructions.keys

namespace Describable

variable {e : Executable}

theorem listed_ids (he : e.Describable) {b : Block} (hb : b ∈ e.blocks.values) :
    (e.listed b).map Instruction.id = b.instructions := by
  have hids (ids : List InstrId) (h : ∀ id ∈ ids, id ∈ e.instructions.keys) :
      (ids.filterMap e.instructions.find?).map Instruction.id = ids := by
    induction ids with
    | nil => rfl
    | cons id ids ih =>
      rw [List.forall_mem_cons] at h
      obtain ⟨i, hi⟩ := Table.exists_find?_of_mem_keys h.1
      rw [List.filterMap_cons_some hi, List.map_cons, ih h.2,
        he.own id i (Table.find?_eq_some_iff.mp hi)]
  apply hids b.instructions
  intro id hid
  rw [he.arena]
  exact List.mem_flatMap.mpr ⟨b, hb, hid⟩

theorem flatMap_listed (he : e.Describable) :
    e.blocks.values.flatMap e.listed = e.instructions.values := by
  have hlisted : e.blocks.values.flatMap e.listed =
      (e.blocks.values.flatMap Block.instructions).filterMap e.instructions.find? := by
    rw [List.filterMap_flatMap]
    rfl
  rw [hlisted, ← he.arena, Table.filterMap_find?_keys]

theorem ids_nodup (he : e.Describable) : (e.instructions.values.map Instruction.id).Nodup := by
  rw [Table.values_map_of_own he.own]
  exact e.instructions.nodup

theorem blockIds_nodup (he : e.Describable) : (e.blocks.values.map Block.id).Nodup := by
  rw [Table.values_map_of_own he.ownBlocks]
  exact e.blocks.nodup

theorem types (he : e.Describable) : ∀ t ∈ e.types, t.Declarable := by
  intro t ht
  obtain ⟨u, hu, ht⟩ := List.mem_flatMap.mp ht
  obtain ⟨i, hi, hu⟩ := List.mem_flatMap.mp hu
  exact ((he.instructions i hi).types u hu).parts t ht

end Describable

theorem mem_types {e : Executable} {i : Instruction} (hi : i ∈ e.instructions.values) {t : Ty}
    (ht : t ∈ i.types) : t ∈ e.types :=
  List.mem_flatMap.mpr ⟨t, List.mem_flatMap.mpr ⟨i, hi, ht⟩, Ty.mem_parts t⟩

theorem mem_values_of_mem_listed {e : Executable} {b : Block} {i : Instruction}
    (hi : i ∈ e.listed b) : i ∈ e.instructions.values := by
  obtain ⟨id, -, hfind⟩ := List.mem_filterMap.mp hi
  exact Table.mem_values_of_find? hfind

end Executable

/-! ## Loading what was written -/

namespace Description

namespace Progress

/-- The progress after `blocks` with `instructions` were read without a problem. -/
structure Holds (p : Progress) (blocks : List Block) (instructions : List Instruction) :
    Prop where
  blocks : p.blocks.entries = blocks.map fun b => (b.id, b)
  entries : p.entries.entries.map (fun entry => (entry.1, entry.2.instruction)) =
    instructions.map fun i => (i.id, i)
  counted : ∀ entry ∈ p.entries.values, entry.counted = true
  errors : p.errors = []

variable {types : TypeTable} {key : Ty → String} {p : Progress} {blocks : List Block}
  {done : List Instruction}

theorem holds_start : (start []).Holds [] [] where
  blocks := rfl
  entries := rfl
  counted := by
    intro entry h
    cases h
  errors := rfl

theorem Holds.keys (h : p.Holds blocks done) : p.entries.keys = done.map Instruction.id := by
  have hkeys := congrArg (List.map Prod.fst) h.entries
  rwa [List.map_map, List.map_map] at hkeys

theorem Holds.blockKeys (h : p.Holds blocks done) : p.blocks.keys = blocks.map Block.id := by
  rw [Table.keys, h.blocks, List.map_map]
  rfl

theorem Holds.readInstruction (h : p.Holds blocks done) {i : Instruction} (hi : i.Describable)
    (htypes : ∀ t ∈ i.types, ∀ place, types.lookup ⟨.text (key t), place⟩ = .ok t)
    (hnew : i.id ∉ done.map Instruction.id) (listed : List InstrId) (place : Place) :
    ∃ p', readInstruction types ⟨i.toDoc key, place⟩ (p, listed) = (p', listed ++ [i.id]) ∧
      p'.Holds blocks (done ++ [i]) := by
  rw [← h.keys] at hnew
  obtain ⟨node, hread⟩ := readEntry_toDoc place hi htypes
    (Table.contains_eq_false_iff.mpr hnew)
  refine ⟨{ p with entries := p.entries.insert i.id ⟨i, true, some node⟩ }, ?_, h.blocks, ?_, ?_,
    h.errors⟩
  · simp only [Progress.readInstruction, hread]
  · rw [Table.entries_insert_of_notMem hnew, List.map_append, h.entries, List.map_append]
    rfl
  · rw [Table.values_insert_of_notMem hnew]
    exact List.forall_mem_append.mpr ⟨h.counted, List.forall_mem_singleton.mpr rfl⟩

theorem Holds.foldl_readInstruction (h : p.Holds blocks done) {new : List Instruction}
    (hnew : ∀ i ∈ new, i.Describable)
    (htypes : ∀ i ∈ new, ∀ t ∈ i.types, ∀ place,
      types.lookup ⟨.text (key t), place⟩ = .ok t)
    (hnodup : ((done ++ new).map Instruction.id).Nodup) {nodes : List Node}
    (hnodes : nodes.map Node.doc = new.map (Instruction.toDoc key)) (listed : List InstrId) :
    ∃ p', nodes.foldl (fun state node => Progress.readInstruction types node state) (p, listed) =
      (p', listed ++ new.map Instruction.id) ∧ p'.Holds blocks (done ++ new) := by
  induction new generalizing p done nodes listed with
  | nil =>
    obtain rfl := List.map_eq_nil_iff.mp hnodes
    exact ⟨p, by simp, by simpa using h⟩
  | cons i new ih =>
    obtain ⟨⟨doc, place⟩, nodes, rfl, hdoc, hrest⟩ := List.map_eq_cons_iff.mp hnodes
    obtain rfl : doc = i.toDoc key := hdoc
    rw [List.forall_mem_cons] at hnew htypes
    have hfresh : i.id ∉ done.map Instruction.id := by
      rw [List.map_append, List.nodup_append] at hnodup
      exact fun hmem => hnodup.2.2 i.id hmem i.id List.mem_cons_self rfl
    obtain ⟨p', hread, hp'⟩ := h.readInstruction hnew.1 htypes.1 hfresh listed place
    rw [← List.singleton_append, ← List.append_assoc] at hnodup
    obtain ⟨p'', hfold, hp''⟩ := ih hp' hnew.2 htypes.2 hnodup hrest (listed ++ [i.id])
    refine ⟨p'', ?_, by simpa using hp''⟩
    rw [List.foldl_cons, hread, hfold, List.append_assoc]
    rfl

section Blocks

variable {e : Executable}

/-- The next block is read with its instructions. -/
theorem Holds.readBlock (h : p.Holds blocks done) (he : e.Describable)
    (htypes : ∀ t ∈ e.types, ∀ place, types.lookup ⟨.text (key t), place⟩ = .ok t) {b : Block}
    (hb : b ∈ e.blocks.values) (hnew : b.id ∉ blocks.map Block.id)
    (hnodup : ((done ++ e.listed b).map Instruction.id).Nodup) (place : Place) :
    (p.readBlock types ⟨e.blockDoc key b, place⟩).Holds (blocks ++ [b])
      (done ++ e.listed b) := by
  rw [← h.blockKeys] at hnew
  have hhead : readBlockHead p.blocks.contains ⟨e.blockDoc key b, place⟩ =
      .ok (b.id, b.nameHint) := by
    rw [readBlockHead, readFreshId, Executable.blockDoc, Node.field_map (d := .int b.id) rfl,
      ok_bind, Node.index_int (he.blocks b hb), ok_bind,
      if_neg (by simp [Table.contains_eq_false_iff.mpr hnew]), pure_eq_ok, ok_bind,
      Node.textOr_map (s := b.nameHint) rfl]
    rfl
  have hlist : (⟨e.blockDoc key b, place⟩ : Node).listOrEmpty "instructions" =
      .ok (Node.itemsAt place "instructions" ((e.listed b).map (Instruction.toDoc key))) :=
    Node.listOrEmpty_map rfl
  have hmem {i : Instruction} (hi : i ∈ e.listed b) : i ∈ e.instructions.values :=
    Executable.mem_values_of_mem_listed hi
  have hlisted : ∀ i ∈ e.listed b, ∀ t ∈ i.types, ∀ place,
      types.lookup ⟨.text (key t), place⟩ = .ok t :=
    fun i hi t ht => htypes t (Executable.mem_types (hmem hi) ht)
  obtain ⟨p', hread, hp'⟩ := h.foldl_readInstruction (fun i hi => he.instructions i (hmem hi))
    hlisted hnodup (Node.docs_itemsAt place "instructions" _) []
  rw [List.nil_append, he.listed_ids hb] at hread
  have hblocks : p'.blocks = p.blocks := Table.ext_entries (hp'.blocks.trans h.blocks.symm)
  rw [← hblocks] at hnew
  simp only [Progress.readBlock, hhead, hlist, readInstructions, hread]
  refine ⟨?_, hp'.entries, hp'.counted, hp'.errors⟩
  rw [Table.entries_insert_of_notMem hnew, hp'.blocks, List.map_append]
  rfl

theorem Holds.readBlocks (he : e.Describable)
    (htypes : ∀ t ∈ e.types, ∀ place, types.lookup ⟨.text (key t), place⟩ = .ok t)
    (h : p.Holds blocks (blocks.flatMap e.listed)) {rest : List Block}
    (hsplit : e.blocks.values = blocks ++ rest) {nodes : List Node}
    (hnodes : nodes.map Node.doc = rest.map (e.blockDoc key)) :
    (p.readBlocks types nodes).Holds e.blocks.values e.instructions.values := by
  induction rest generalizing p blocks nodes with
  | nil =>
    obtain rfl := List.map_eq_nil_iff.mp hnodes
    rw [List.append_nil] at hsplit
    rw [← he.flatMap_listed, hsplit]
    exact h
  | cons b rest ih =>
    obtain ⟨⟨doc, place⟩, nodes, rfl, hdoc, hrest⟩ := List.map_eq_cons_iff.mp hnodes
    obtain rfl : doc = e.blockDoc key b := hdoc
    have hb : b ∈ e.blocks.values := by simp [hsplit]
    have hnew : b.id ∉ blocks.map Block.id := by
      have hnodup := he.blockIds_nodup
      rw [hsplit, List.map_append, List.nodup_append] at hnodup
      exact fun hmem => hnodup.2.2 b.id hmem b.id List.mem_cons_self rfl
    have hnodup : ((blocks.flatMap e.listed ++ e.listed b).map Instruction.id).Nodup := by
      have hnodup := he.ids_nodup
      rw [← he.flatMap_listed, hsplit, List.flatMap_append, List.flatMap_cons,
        ← List.append_assoc, List.map_append] at hnodup
      exact (List.nodup_append.mp hnodup).1
    have hnext := h.readBlock he htypes hb hnew hnodup place
    have hdone : blocks.flatMap e.listed ++ e.listed b = (blocks ++ [b]).flatMap e.listed := by
      rw [List.flatMap_append, List.flatMap_singleton]
    rw [hdone] at hnext
    exact ih hnext (by simpa using hsplit) hrest

/-- Once everything is read, every name leads to an entry and the executable is complete. -/
theorem Holds.outcome (h : p.Holds e.blocks.values e.instructions.values)
    (he : e.Describable) : p.outcome = .ok e := by
  have hentries := h.entries.trans (Table.map_values_of_own he.own)
  have hkeys : p.entries.keys = e.instructions.keys :=
    h.keys.trans (Table.values_map_of_own he.own)
  have hvalue : ∀ entry ∈ p.entries.values, p.valueErrors entry = [] := by
    intro entry hentry
    obtain ⟨id, hentry⟩ := Table.mem_values_iff.mp hentry
    have hmem : (id, entry.instruction) ∈ e.instructions.entries := by
      rw [← hentries]
      exact List.mem_map_of_mem hentry
    apply valueErrors_eq_nil
    intro r hr
    rw [hkeys]
    exact he.references _ (Table.mem_values_iff.mpr ⟨id, hmem⟩) r hr
  have herrors : p.allErrors = [] := by
    rw [allErrors, h.errors, List.nil_append]
    exact List.flatMap_eq_nil_iff.mpr hvalue
  have hblocks : p.blocks = e.blocks :=
    Table.ext_entries (h.blocks.trans (Table.map_values_of_own he.ownBlocks))
  have hinstructions : p.executable.instructions = e.instructions := by
    refine Table.ext_entries (Eq.trans ?_ hentries)
    apply List.map_congr_left
    intro entry hentry
    have hcounted : p.counted entry.2 = entry.2.instruction :=
      if_pos (h.counted entry.2 (Table.mem_values_iff.mpr ⟨entry.1, hentry⟩))
    exact congrArg (Prod.mk entry.1) hcounted
  rw [Progress.outcome, herrors]
  exact congrArg Outcome.ok (congrArg₂ Executable.mk hblocks hinstructions)

end Blocks

end Progress

/-- The document of an executable is one that a parse can leave, and loading it gives the
executable back. -/
theorem load_toDoc {e : Executable} (he : e.Describable) :
    e.toDoc.Parsed ∧ load e.toDoc = .ok e := by
  refine ⟨e.parsed_toDoc, ?_⟩
  have hdeclared : (Node.root e.toDoc).field? "types" =
      .ok (some ⟨.map (typeEntries e.types), [.key "types"]⟩) := rfl
  obtain ⟨types, hread, htypes⟩ :=
    readTypes_typeEntries hdeclared (partsFirst_flatMap _) he.types
  have hblocks : blockNodes (.root e.toDoc) = .ok (Node.itemsAt [] "blocks"
      (e.blocks.values.map (e.blockDoc (typeKey e.types)))) := rfl
  have hprogress : (readProgress (.root e.toDoc)).Holds e.blocks.values
      e.instructions.values := by
    rw [readProgress, hread, hblocks]
    exact Progress.holds_start.readBlocks he htypes (List.nil_append _).symm
      (Node.docs_itemsAt [] "blocks" _)
  exact hprogress.outcome he

/-- A pair of a type that is not the builtin one of its name. -/
def flagPair : Ty := .array "pair" (.declared "u8" (.plain .bool "bool")) 2

/-- An alias of a type that declares its fields. -/
def viewAlias : Ty := .declared "view" (.aggregate .struct "slice" ["ptr", "len"])

/-- A function bound to a pair in another block, and an initialiser that is given one field. -/
def boundPair : Executable where
  blocks := ⟨[(1, ⟨1, "entry", [4, 2]⟩), (0, ⟨0, "exit", [0, 1]⟩)], by decide⟩
  instructions := ⟨[
    (4, ⟨4, some flagPair, 0, .static (.array [.static (.bool true), .undef]), .const⟩),
    (2, ⟨2, none, 0, .runtime, .br 0 false⟩),
    (0, ⟨0, some (.plain .boundFn "bound"), 1, .static (.boundFn "f" 4), .const⟩),
    (1, ⟨1, none, 3, .runtime, .structInit viewAlias [⟨"len", 0⟩]⟩)], by decide⟩

theorem boundPair_describable : boundPair.Describable where
  ownBlocks := fun id b h =>
    (by decide : ∀ entry ∈ boundPair.blocks.entries, entry.2.id = entry.1) (id, b) h
  own := fun id i h =>
    (by decide : ∀ entry ∈ boundPair.instructions.entries, entry.2.id = entry.1) (id, i) h
  arena := rfl
  blocks := by decide
  instructions := by
    have hruntime : ∃ root node, readValue (readTypes root).1 none node = .ok .runtime :=
      ⟨.root .null, none, rfl⟩
    have hpair : ∃ root node, readValue (readTypes root).1 (some flagPair) node =
        .ok (.static (.array [.static (.bool true), .undef])) :=
      ⟨.root .null, some (.root (.list [.bool true, .map [("special", .text "undef")]])), rfl⟩
    have hbound : ∃ root node, readValue (readTypes root).1 (some (.plain .boundFn "bound")) node =
        .ok (.static (.boundFn "f" 4)) := by
      refine ⟨.root .null, some (.root (.map [("fn", .text "f"), ("firstArg", .int 4)])), ?_⟩
      have hreceiver : (Node.root (.map [("fn", .text "f"), ("firstArg", .int 4)])).id
          "firstArg" = .ok 4 := Node.id_map rfl (by decide)
      simp only [readValue, readState, readData, hreceiver]
      rfl
    have hconst : Operation.const.Writable :=
      ⟨trivial, by decide, by decide, fun _ _ h => by cases h⟩
    have hbr : (Operation.br 0 false).Writable :=
      ⟨trivial, by decide, by decide, fun _ _ h => by cases h⟩
    have hinit : (Operation.structInit viewAlias [⟨"len", 0⟩]).Writable := by
      refine ⟨trivial, by decide, by decide, ?_⟩
      rintro _ _ ⟨⟩ kind name declared hcanonical -
      cases hcanonical
      decide
    refine List.forall_mem_cons.mpr ⟨?_, List.forall_mem_cons.mpr ⟨?_, List.forall_mem_cons.mpr
      ⟨?_, List.forall_mem_singleton.mpr ?_⟩⟩⟩
    · refine ⟨by decide, by decide, ?_, hpair, hconst, by simp [Operation.types]⟩
      rintro _ ⟨⟩
      exact ⟨trivial, by decide⟩
    · exact ⟨by decide, by decide, by simp, hruntime, hbr, by simp [Operation.types]⟩
    · refine ⟨by decide, by decide, ?_, hbound, hconst, by simp [Operation.types]⟩
      rintro _ ⟨⟩
      exact trivial
    · refine ⟨by decide, by decide, by simp, hruntime, hinit, ?_⟩
      exact List.forall_mem_singleton.mpr trivial
  references := by decide

theorem load_boundPair :
    boundPair.Describable ∧ boundPair.toDoc.Parsed ∧ load boundPair.toDoc = .ok boundPair :=
  ⟨boundPair_describable, load_toDoc boundPair_describable⟩

end Description

end BlockIr
