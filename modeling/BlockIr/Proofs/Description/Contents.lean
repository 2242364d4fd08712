import BlockIr.Proofs.Description.Transcript

/-!
# What a description says

The contents of a description are what its block entries say, each read as if it were alone. They
do not depend on what else has been read, so they tell which descriptions load: those whose types
and contents can be read, in which no id is taken twice, and whose values name nothing that is
absent.

* `contents`: the contents of a description.
* `Progress.Collects`: what has been read while no problem was found, as contents.
* `Assembles`: the executable of some contents.
* `load_value_iff`: a document loads if and only if its contents have an executable.
-/

namespace BlockIr

/-- What an instruction entry says: the instruction, and whether the use count is given. -/
structure ItemContent where
  instruction : Instruction
  counted : Bool

def Entry.content (entry : Entry) : ItemContent := ⟨entry.instruction, entry.counted⟩

/-- What a block entry says. -/
structure BlockContent where
  id : BlockId
  nameHint : String
  items : List ItemContent

def ItemContent.id (x : ItemContent) : InstrId := x.instruction.id

def BlockContent.block (c : BlockContent) : Block := ⟨c.id, c.nameHint, c.items.map ItemContent.id⟩

/-- Number of operand slots that name an instruction, over some items. -/
def usesIn (xs : List ItemContent) (id : InstrId) : Nat :=
  (xs.flatMap fun x => x.instruction.operands).count id

/-- The instruction of an item among some items, with its use count. -/
def ItemContent.among (xs : List ItemContent) (x : ItemContent) : Instruction :=
  if x.counted then x.instruction else { x.instruction with refCount := usesIn xs x.id }

/-- Read an instruction entry as if it were alone. -/
def readItem (types : TypeTable) (node : Node) : Reading ItemContent :=
  Entry.content <$> readEntry types (fun _ => false) node

/-- Read a block entry as if it were alone. -/
def readContent (types : TypeTable) (node : Node) : Reading BlockContent := do
  let (id, nameHint) ← readBlockHead (fun _ => false) node
  let items ← node.listOrEmpty "instructions"
  return ⟨id, nameHint, ← items.mapM (readItem types)⟩

namespace Description

/-- What the block entries of a description say. -/
def contents (root : Node) : Reading (List BlockContent) := do
  (← blockNodes root).mapM (readContent (readTypes root).1)

/-! ## Ids that are not taken -/

section Fresh

variable {types : TypeTable} {node : Node}

theorem readBlockHead_eq_ok {taken : BlockId → Bool} {head : BlockId × String} :
    readBlockHead taken node = .ok head ↔
      readBlockHead (fun _ => false) node = .ok head ∧ taken head.1 = false := by
  obtain ⟨id, nameHint⟩ := head
  simp only [readBlockHead, bind_eq_ok, readFreshId_eq_ok]
  constructor
  · rintro ⟨_, ⟨hid, hfresh⟩, _, hname, h⟩
    cases h
    exact ⟨⟨id, ⟨hid, trivial⟩, nameHint, hname, rfl⟩, hfresh⟩
  · rintro ⟨⟨_, ⟨hid, -⟩, _, hname, h⟩, hfresh⟩
    cases h
    exact ⟨id, ⟨hid, hfresh⟩, nameHint, hname, rfl⟩

end Fresh

namespace Progress

/-- What the instruction entries that were read say, under their ids. -/
def said (p : Progress) : List (InstrId × ItemContent) :=
  p.entries.entries.map fun entry => (entry.1, entry.2.content)

/-- The blocks and entries are those of some contents. -/
structure Collects (cs : List BlockContent) (p : Progress) : Prop where
  blocks : p.blocks.entries = cs.map fun c => (c.id, c.block)
  said : p.said = (cs.flatMap BlockContent.items).map fun x => (x.id, x)

/-- The blocks and entries are those of some block entries. -/
def CollectsNodes (types : TypeTable) (nodes : List Node) (p : Progress) : Prop :=
  ∃ cs, nodes.mapM (readContent types) = .ok cs ∧ Collects cs p

/-- Some items have been read in a block, and nothing else. -/
structure Lists (xs : List ItemContent) (state state' : Progress × List InstrId) : Prop where
  blocks : state'.1.blocks = state.1.blocks
  said : state'.1.said = state.1.said ++ xs.map fun x => (x.id, x)
  errors : state'.1.errors = state.1.errors
  listed : state'.2 = state.2 ++ xs.map ItemContent.id

/-- Some item nodes have been read in a block, and nothing else. -/
def ListsNodes (types : TypeTable) (state : Progress × List InstrId) (nodes : List Node)
    (state' : Progress × List InstrId) : Prop :=
  ∃ xs, nodes.mapM (readItem types) = .ok xs ∧ Lists xs state state'

variable {types : TypeTable} {p : Progress} {node : Node} {cs : List BlockContent}
  {state state' state'' : Progress × List InstrId}

theorem keys_eq_said (p : Progress) : p.entries.keys = p.said.map Prod.fst := by
  rw [said, List.map_map]
  rfl

theorem Collects.keys (h : p.Collects cs) :
    p.entries.keys = (cs.flatMap BlockContent.items).map ItemContent.id := by
  rw [keys_eq_said, h.said, List.map_map]
  rfl

theorem Collects.blockKeys (h : p.Collects cs) : p.blocks.keys = cs.map BlockContent.id := by
  rw [Table.keys, h.blocks, List.map_map]
  rfl

theorem collects_start (errors : List LoadError) : (start errors).Collects [] := ⟨rfl, rfl⟩

/-! ## Items of a block -/

theorem Lists.refl (state : Progress × List InstrId) : Lists [] state state :=
  ⟨rfl, by simp, rfl, by simp⟩

theorem Lists.trans {xs ys : List ItemContent} (h : Lists xs state state')
    (h' : Lists ys state' state'') : Lists (xs ++ ys) state state'' where
  blocks := h'.blocks.trans h.blocks
  said := by rw [h'.said, h.said, List.map_append, List.append_assoc]
  errors := h'.errors.trans h.errors
  listed := by rw [h'.listed, h.listed, List.map_append, List.append_assoc]

theorem Lists.keys {xs : List ItemContent} (h : Lists xs state state') :
    state'.1.entries.keys = state.1.entries.keys ++ xs.map ItemContent.id := by
  rw [keys_eq_said, keys_eq_said, h.said, List.map_append, List.map_map]
  rfl

/-- An entry whose id is new is stored and listed. -/
theorem readInstruction_of_ok {x : ItemContent} (h : readItem types node = .ok x)
    (hnew : x.id ∉ state.1.entries.keys) : Lists [x] state (readInstruction types node state) := by
  obtain ⟨p, listed⟩ := state
  obtain ⟨entry, hentry, rfl⟩ := map_eq_ok.mp h
  have hnew : entry.instruction.id ∉ p.entries.keys := hnew
  have hid := (readEntry_eq_ok.mp hentry).2.1
  have hread : readEntry types p.entries.contains node = .ok entry :=
    readEntry_eq_ok.mpr ⟨hentry, hid, Table.contains_eq_false_iff.mpr hnew⟩
  simp only [readInstruction, hread]
  refine ⟨rfl, ?_, rfl, rfl⟩
  simp only [said]
  rw [Table.entries_insert_of_notMem hnew, List.map_append]
  rfl

theorem readInstructions_of_ok {items : List Node} {xs : List ItemContent}
    (h : items.mapM (readItem types) = .ok xs)
    (hnodup : (state.1.entries.keys ++ xs.map ItemContent.id).Nodup) :
    Lists xs state (items.foldl (fun state node => readInstruction types node state) state) := by
  induction items generalizing state xs with
  | nil =>
    cases h
    exact .refl state
  | cons node items ih =>
    rw [List.mapM_cons] at h
    obtain ⟨x, hx, h⟩ := bind_eq_ok.mp h
    obtain ⟨rest, hrest, h⟩ := bind_eq_ok.mp h
    cases h
    have hnew : x.id ∉ state.1.entries.keys := by
      intro hmem
      exact (List.nodup_append.mp hnodup).2.2 x.id hmem x.id List.mem_cons_self rfl
    have hstep := readInstruction_of_ok hx hnew
    refine hstep.trans (ih hrest ?_)
    rw [hstep.keys, List.append_assoc]
    exact hnodup

theorem lists_of_clean {items : List Node}
    (hclean : (p.readInstructions types items).1.errors = []) :
    ListsNodes types (p, []) items (p.readInstructions types items) := by
  have hback (state : Progress × List InstrId) (node : Node)
      (h : (readInstruction types node state).1.errors = []) : state.1.errors = [] :=
    (readInstruction_of_clean h).1
  have hnone : ListsNodes types (p, []) [] (p, []) := ⟨[], rfl, .refl _⟩
  refine foldl_of_clean (fun state : Progress × List InstrId => state.1.errors = []) hback ?_
    hnone hclean
  rintro done state node ⟨xs, hxs, hlists⟩ hnode
  obtain ⟨-, entry, hentry, -⟩ := readInstruction_of_clean hnode
  obtain ⟨halone, -, hfresh⟩ := readEntry_eq_ok.mp hentry
  have hitem : readItem types node = .ok entry.content := by
    rw [readItem, halone]
    rfl
  have hstep := readInstruction_of_ok hitem (Table.contains_eq_false_iff.mp hfresh)
  exact ⟨xs ++ [entry.content], mapM_concat hxs hitem, hlists.trans hstep⟩

/-! ## Blocks -/

theorem readBlock_of_ok {c : BlockContent} (hp : p.Collects cs) (h : readContent types node = .ok c)
    (hid : c.id ∉ p.blocks.keys)
    (hitems : (p.entries.keys ++ c.items.map ItemContent.id).Nodup) :
    (p.readBlock types node).Collects (cs ++ [c]) ∧
      (p.readBlock types node).errors = p.errors := by
  obtain ⟨⟨id, nameHint⟩, hhead, h⟩ := bind_eq_ok.mp h
  obtain ⟨nodes, hnodes, h⟩ := bind_eq_ok.mp h
  obtain ⟨xs, hxs, h⟩ := bind_eq_ok.mp h
  cases h
  have hhead : readBlockHead p.blocks.contains node = .ok (id, nameHint) :=
    readBlockHead_eq_ok.mpr ⟨hhead, Table.contains_eq_false_iff.mpr hid⟩
  have hlists : Lists xs (p, []) (p.readInstructions types nodes) :=
    readInstructions_of_ok hxs hitems
  rw [readBlock, hhead, hnodes]
  refine ⟨⟨?_, ?_⟩, hlists.errors⟩
  · simp only
    rw [hlists.blocks, Table.entries_insert_of_notMem hid, hp.blocks, List.map_append,
      hlists.listed]
    rfl
  · have hsaid : (p.readInstructions types nodes).1.said = p.said ++ xs.map fun x => (x.id, x) :=
      hlists.said
    rw [List.flatMap_append, List.flatMap_singleton, List.map_append, ← hp.said]
    exact hsaid

theorem readBlocks_of_ok {nodes : List Node} {new : List BlockContent} (hp : p.Collects cs)
    (h : nodes.mapM (readContent types) = .ok new)
    (hblocks : ((cs ++ new).map BlockContent.id).Nodup)
    (hitems : (((cs ++ new).flatMap BlockContent.items).map ItemContent.id).Nodup) :
    (p.readBlocks types nodes).Collects (cs ++ new) ∧
      (p.readBlocks types nodes).errors = p.errors := by
  induction nodes generalizing p cs new with
  | nil =>
    rw [List.mapM_nil] at h
    cases h
    rw [List.append_nil]
    exact ⟨hp, rfl⟩
  | cons node nodes ih =>
    rw [List.mapM_cons] at h
    obtain ⟨c, hc, h⟩ := bind_eq_ok.mp h
    obtain ⟨rest, hrest, h⟩ := bind_eq_ok.mp h
    cases h
    have hid : c.id ∉ p.blocks.keys := by
      rw [hp.blockKeys]
      intro hmem
      rw [List.map_append, List.nodup_append] at hblocks
      exact hblocks.2.2 c.id hmem c.id List.mem_cons_self rfl
    have hnew : (p.entries.keys ++ c.items.map ItemContent.id).Nodup := by
      rw [List.flatMap_append, List.flatMap_cons, ← List.append_assoc, List.map_append,
        List.map_append, ← hp.keys] at hitems
      exact (List.nodup_append.mp hitems).1
    obtain ⟨hstep, herrors⟩ := readBlock_of_ok hp hc hid hnew
    rw [List.append_cons] at hblocks hitems ⊢
    obtain ⟨hrun, hrest⟩ := ih hstep hrest hblocks hitems
    exact ⟨hrun, hrest.trans herrors⟩

theorem collects_of_clean {nodes : List Node} {errors : List LoadError}
    (hclean : ((start errors).readBlocks types nodes).errors = []) :
    errors = [] ∧ CollectsNodes types nodes ((start errors).readBlocks types nodes) := by
  have hback (p : Progress) (node : Node) (h : (p.readBlock types node).errors = []) :
      p.errors = [] := by
    obtain ⟨_, _, items, -, -, hread, -⟩ := readBlock_of_clean h
    exact (followsIn_readInstructions hread).1
  have hnone : CollectsNodes types [] (start errors) := ⟨[], rfl, collects_start errors⟩
  refine ⟨clean_of_foldl (fun p : Progress => p.errors = []) hback hclean, ?_⟩
  refine foldl_of_clean (fun p : Progress => p.errors = []) hback ?_ hnone hclean
  rintro done p node ⟨cs, hcs, hp⟩ hnode
  obtain ⟨id, nameHint, items, hhead, hitems, hread, -⟩ := readBlock_of_clean hnode
  obtain ⟨hhead, hfresh⟩ := readBlockHead_eq_ok.mp hhead
  obtain ⟨xs, hxs, hlists⟩ := lists_of_clean hread
  have hcontent : readContent types node = .ok ⟨id, nameHint, xs⟩ := by
    rw [readContent, hhead, ok_bind]
    simp only [hitems, ok_bind, hxs]
    rfl
  have hnodup := (p.readInstructions types items).1.entries.nodup
  rw [← Table.keys, hlists.keys] at hnodup
  have hstep := readBlock_of_ok hp hcontent (Table.contains_eq_false_iff.mp hfresh) hnodup
  exact ⟨cs ++ [⟨id, nameHint, xs⟩], mapM_concat hcs hcontent, hstep.1⟩

end Progress

/-! ## Loads -/

/-- The executable of some contents. -/
structure Assembles (cs : List BlockContent) (e : Executable) : Prop where
  blocks : e.blocks.entries = cs.map fun c => (c.id, c.block)
  instructions : e.instructions.entries =
    (cs.flatMap BlockContent.items).map fun x =>
      (x.id, x.among (cs.flatMap BlockContent.items))
  references : ∀ x ∈ cs.flatMap BlockContent.items, ∀ r ∈ x.instruction.references,
    r ∈ e.instructions.keys

namespace Progress

variable {p : Progress} {cs : List BlockContent}

theorem Collects.entries_map {β : Type} (h : p.Collects cs) (f : ItemContent → β) :
    p.entries.entries.map (fun entry => (entry.1, f entry.2.content)) =
      (cs.flatMap BlockContent.items).map fun x => (x.id, f x) := by
  have hmap := congrArg (List.map fun entry : InstrId × ItemContent => (entry.1, f entry.2)) h.said
  rwa [Progress.said, List.map_map, List.map_map] at hmap

theorem Collects.values_map {β : Type} (h : p.Collects cs) (f : ItemContent → β) :
    p.entries.values.map (fun entry => f entry.content) =
      (cs.flatMap BlockContent.items).map f := by
  have hmap := congrArg (List.map Prod.snd) (h.entries_map f)
  rw [List.map_map, List.map_map] at hmap
  rw [Table.values, List.map_map]
  exact hmap

theorem Collects.counted (h : p.Collects cs) (entry : Entry) :
    p.counted entry = entry.content.among (cs.flatMap BlockContent.items) := by
  have huses (id : InstrId) : p.uses id = usesIn (cs.flatMap BlockContent.items) id := by
    have hoperands := congrArg List.flatten (h.values_map fun x => x.instruction.operands)
    rw [uses, usesIn, List.flatMap_def, List.flatMap_def]
    exact congrArg (List.count id) hoperands
  rw [Progress.counted, ItemContent.among, huses]
  rfl

theorem Collects.instructions (h : p.Collects cs) :
    p.executable.instructions.entries = (cs.flatMap BlockContent.items).map fun x =>
      (x.id, x.among (cs.flatMap BlockContent.items)) := by
  rw [← h.entries_map fun x => x.among (cs.flatMap BlockContent.items)]
  exact List.map_congr_left fun entry _ => congrArg _ (h.counted entry.2)

theorem Collects.mem_items (h : p.Collects cs) {entry : Entry} (hentry : entry ∈ p.entries.values) :
    entry.content ∈ cs.flatMap BlockContent.items := by
  have hvalues := h.values_map id
  rw [List.map_id] at hvalues
  rw [← hvalues]
  exact List.mem_map_of_mem (f := fun entry : Entry => id entry.content) hentry

end Progress

namespace Assembles

variable {cs : List BlockContent} {e e' : Executable}

theorem blockKeys (h : Assembles cs e) : e.blocks.keys = cs.map BlockContent.id := by
  rw [Table.keys, h.blocks, List.map_map]
  rfl

theorem instructionKeys (h : Assembles cs e) :
    e.instructions.keys = (cs.flatMap BlockContent.items).map ItemContent.id := by
  rw [Table.keys, h.instructions, List.map_map]
  rfl

theorem find?_block (h : Assembles cs e) {c : BlockContent} (hc : c ∈ cs) :
    e.blocks.find? c.id = some c.block := by
  rw [Table.find?_eq_some_iff, h.blocks]
  exact List.mem_map_of_mem hc

/-- Some contents have one executable at most. -/
theorem unique (h : Assembles cs e) (h' : Assembles cs e') : e = e' := by
  obtain ⟨blocks, instructions⟩ := e
  obtain ⟨blocks', instructions'⟩ := e'
  have hblocks : blocks = blocks' := Table.ext_entries (h.blocks.trans h'.blocks.symm)
  have hinstructions : instructions = instructions' :=
    Table.ext_entries (h.instructions.trans h'.instructions.symm)
  rw [hblocks, hinstructions]

end Assembles

/-- What has been read when a load succeeds are the contents of the document. -/
theorem collects_of_load {doc : Doc} {e : Executable} (h : (load doc).value = some e) :
    (readTypes (.root doc)).2 = [] ∧ ∃ cs, contents (.root doc) = .ok cs ∧
      (readProgress (.root doc)).Collects cs := by
  obtain ⟨herrors, rfl⟩ := progress_of_load h
  have hclean : (readProgress (.root doc)).errors = [] := (List.append_eq_nil_iff.mp herrors).1
  unfold readProgress at hclean ⊢
  dsimp only at hclean ⊢
  unfold contents
  cases hnodes : blockNodes (.root doc) with
  | error e =>
    rw [hnodes] at hclean
    exact absurd hclean (by simp [Progress.start])
  | ok nodes =>
    rw [hnodes] at hclean
    exact Progress.collects_of_clean hclean

theorem references_among (xs : List ItemContent) (x : ItemContent) :
    (x.among xs).references = x.instruction.references := by
  unfold ItemContent.among
  split <;> rfl

theorem assembles_of_load {doc : Doc} {e : Executable} (h : (load doc).value = some e) :
    (readTypes (.root doc)).2 = [] ∧ ∃ cs, contents (.root doc) = .ok cs ∧ Assembles cs e := by
  have he := described_of_load h
  obtain ⟨htypes, cs, hcs, hcollects⟩ := collects_of_load h
  obtain ⟨-, rfl⟩ := progress_of_load h
  refine ⟨htypes, cs, hcs, hcollects.blocks, hcollects.instructions, ?_⟩
  intro x hx r hr
  have hmem : x.among (cs.flatMap BlockContent.items) ∈
      (readProgress (.root doc)).executable.instructions.values := by
    rw [Table.mem_values_iff, hcollects.instructions]
    exact ⟨x.id, List.mem_map_of_mem hx⟩
  rw [← references_among (cs.flatMap BlockContent.items)] at hr
  exact he.references _ hmem r hr

theorem load_of_assembles {doc : Doc} {cs : List BlockContent} {e : Executable}
    (htypes : (readTypes (.root doc)).2 = []) (hcs : contents (.root doc) = .ok cs)
    (h : Assembles cs e) : (load doc).value = some e := by
  obtain ⟨nodes, hnodes, hcs⟩ := bind_eq_ok.mp hcs
  -- The ids are keys of the executable, so none of them is taken when it is read.
  have hblocks : (cs.map BlockContent.id).Nodup := h.blockKeys ▸ e.blocks.nodup
  have hitems : ((cs.flatMap BlockContent.items).map ItemContent.id).Nodup :=
    h.instructionKeys ▸ e.instructions.nodup
  obtain ⟨hcollects, herrors⟩ :=
    Progress.readBlocks_of_ok (Progress.collects_start []) hcs hblocks hitems
  rw [List.nil_append] at hcollects
  have hprogress : readProgress (.root doc) =
      (Progress.start []).readBlocks (readTypes (.root doc)).1 nodes := by
    unfold readProgress
    simp only [htypes, hnodes]
  rw [← hprogress] at hcollects herrors
  have hvalues : ∀ entry ∈ (readProgress (.root doc)).entries.values,
      (readProgress (.root doc)).valueErrors entry = [] := by
    intro entry hentry
    apply Progress.valueErrors_eq_nil
    intro r hr
    rw [hcollects.keys, ← h.instructionKeys]
    exact h.references _ (hcollects.mem_items hentry) r hr
  have hnone : (readProgress (.root doc)).allErrors = [] := by
    rw [Progress.allErrors, herrors, List.flatMap_eq_nil_iff.mpr hvalues]
    rfl
  have hexecutable : Assembles cs (readProgress (.root doc)).executable := by
    refine ⟨hcollects.blocks, hcollects.instructions, fun x hx r hr => ?_⟩
    rw [Table.keys, hcollects.instructions, ← h.instructions]
    exact h.references x hx r hr
  rw [load_of_blocks hnodes, Progress.outcome, hnone, hexecutable.unique h]
  rfl

/-- A document loads if and only if its types are without a problem and its contents have an
executable, and then that is what it loads to. -/
theorem load_value_iff {doc : Doc} {e : Executable} :
    (load doc).value = some e ↔ (readTypes (.root doc)).2 = [] ∧
      ∃ cs, contents (.root doc) = .ok cs ∧ Assembles cs e := by
  constructor
  · exact assembles_of_load
  · rintro ⟨htypes, cs, hcs, h⟩
    exact load_of_assembles htypes hcs h

end Description

end BlockIr
