import BlockIr.Proofs.Description.Constant
import BlockIr.Proofs.Description.Operation
import BlockIr.Proofs.Table

/-!
# What a load leaves

A load reads entry after entry and keeps what it has read. The arena is always the lists of the
blocks one after the other, every instruction stands under its own id, and every value was read
at the type of its instruction. The names inside values are looked up at the end, when every
entry is known.

* `Progress.Sound`: what holds after every entry.
* `progress_of_load`: what a load that succeeds gives.
* `described_of_load`: what holds for the executable.
-/

namespace BlockIr

/-- An entry as its reading leaves it. -/
structure Entry.Sound (entry : Entry) : Prop where
  type : ∀ t, entry.instruction.type = some t → t.Declarable
  value : entry.instruction.value.ReadsAt entry.instruction.type
  operation : entry.instruction.operation.Recognised
  /-- Without a node for the value there is nothing to look up. -/
  unnamed : entry.valueNode = none → entry.instruction.references = []

section Entries

variable {types : TypeTable} {node : Node}

/-- An id is read if it is not taken. -/
theorem readFreshId_eq_ok {taken : Int → Bool} {cause : Int → Cause} {id : Int} :
    readFreshId node taken cause = .ok id ↔ node.id "id" = .ok id ∧ taken id = false := by
  unfold readFreshId Node.id
  simp only [bind_eq_ok]
  constructor
  · rintro ⟨entry, hentry, id', hid, h⟩
    split at h
    · cases h
    · rename_i hfresh
      cases h
      exact ⟨⟨entry, hentry, hid⟩, Bool.eq_false_iff.mpr hfresh⟩
  · rintro ⟨⟨entry, hentry, hid⟩, hfresh⟩
    refine ⟨entry, hentry, id, hid, ?_⟩
    rw [hfresh]
    rfl

theorem readType_declarable (ht : types.Sound) {type : Option Ty}
    (h : readType types node = .ok type) : ∀ t, type = some t → t.Declarable := by
  obtain ⟨entry, -, h⟩ := bind_eq_ok.mp h
  cases entry with
  | none =>
    cases h
    intro t ht
    cases ht
  | some entry =>
    simp only at h
    split at h
    · cases h
      intro t ht
      cases ht
    · obtain ⟨type', htype, rfl⟩ := map_eq_ok.mp h
      intro t heq
      cases heq
      exact TypeTable.declarable_of_lookup ht htype

theorem exists_kind_of_readKind {reader : OperationReader} (h : readKind node = .ok reader) :
    ∃ kind, operationReader? kind = some reader := by
  obtain ⟨entry, -, h⟩ := bind_eq_ok.mp h
  obtain ⟨w, -, h⟩ := bind_eq_ok.mp h
  split at h
  · rename_i hw
    cases h
    exact ⟨w, hw⟩
  · cases h

/-- An entry has an id of its own and is sound. -/
theorem sound_of_readEntry (ht : types.Sound) {taken : InstrId → Bool} {entry : Entry}
    (h : readEntry types taken node = .ok entry) :
    taken entry.instruction.id = false ∧ entry.Sound := by
  obtain ⟨reader, hreader, h⟩ := bind_eq_ok.mp h
  obtain ⟨id, hid, h⟩ := bind_eq_ok.mp h
  obtain ⟨type, htype, h⟩ := bind_eq_ok.mp h
  obtain ⟨countNode, -, h⟩ := bind_eq_ok.mp h
  obtain ⟨valueNode, -, h⟩ := bind_eq_ok.mp h
  obtain ⟨refCount, -, h⟩ := bind_eq_ok.mp h
  obtain ⟨value, hvalue, h⟩ := bind_eq_ok.mp h
  obtain ⟨operation, hoperation, h⟩ := bind_eq_ok.mp h
  cases h
  obtain ⟨kind, hkind⟩ := exists_kind_of_readKind hreader
  refine ⟨(readFreshId_eq_ok.mp hid).2, readType_declarable ht htype, readValue_reads ht hvalue,
    recognised_of_reader hkind types node operation hoperation, ?_⟩
  rintro rfl
  cases hvalue
  rfl

end Entries

namespace Description

namespace Progress

/-- What holds after every block entry. -/
structure Sound (p : Progress) : Prop where
  entries : ∀ id entry, (id, entry) ∈ p.entries.entries →
    entry.instruction.id = id ∧ entry.Sound
  arena : p.entries.keys = p.blocks.values.flatMap Block.instructions

/-- What holds in the middle of a block, `start` being the progress before it. -/
structure SoundIn (start : Progress) (state : Progress × List InstrId) : Prop where
  entries : ∀ id entry, (id, entry) ∈ state.1.entries.entries →
    entry.instruction.id = id ∧ entry.Sound
  arena : state.1.entries.keys = start.entries.keys ++ state.2
  blocks : state.1.blocks = start.blocks

variable {types : TypeTable} {p start : Progress}

theorem sound_start (errors : List LoadError) : (Progress.start errors).Sound where
  entries := by
    intro id entry h
    cases h
  arena := rfl

theorem Sound.report (hp : p.Sound) (e : LoadError) : (p.report e).Sound :=
  ⟨hp.entries, hp.arena⟩

theorem Sound.enter (hp : p.Sound) : SoundIn p (p, []) :=
  ⟨hp.entries, by simp, rfl⟩

theorem SoundIn.readInstruction (ht : types.Sound) {state : Progress × List InstrId}
    (h : SoundIn start state) (node : Node) :
    SoundIn start (readInstruction types node state) := by
  obtain ⟨p, listed⟩ := state
  simp only [Progress.readInstruction]
  split
  · exact ⟨h.entries, h.arena, h.blocks⟩
  · rename_i entry hentry
    obtain ⟨hfresh, hsound⟩ := sound_of_readEntry ht hentry
    have hnew := Table.contains_eq_false_iff.mp hfresh
    refine ⟨?_, ?_, h.blocks⟩
    · intro id entry' hmem
      rw [Table.entries_insert_of_notMem hnew, List.mem_append, List.mem_singleton] at hmem
      rcases hmem with hmem | hmem
      · exact h.entries id entry' hmem
      · cases hmem
        exact ⟨rfl, hsound⟩
    · rw [Table.keys_insert_of_notMem hnew, h.arena, List.append_assoc]

theorem Sound.readInstructions (ht : types.Sound) (hp : p.Sound) (nodes : List Node) :
    SoundIn p (p.readInstructions types nodes) :=
  List.foldlRecOn nodes _ hp.enter fun _ h node _ => h.readInstruction ht node

theorem Sound.readBlock (ht : types.Sound) (hp : p.Sound) (node : Node) :
    (p.readBlock types node).Sound := by
  unfold Progress.readBlock
  split
  · exact hp.report _
  · rename_i id nameHint hhead
    have hnew : id ∉ p.blocks.keys := by
      obtain ⟨_, hid, h⟩ := bind_eq_ok.mp hhead
      obtain ⟨_, -, h⟩ := bind_eq_ok.mp h
      cases h
      exact Table.contains_eq_false_iff.mp (readFreshId_eq_ok.mp hid).2
    -- Whether or not its list can be read, a block is stored with what it lists.
    have hstore (state : Progress × List InstrId) (h : SoundIn p state) :
        ({ state.1 with
            blocks := state.1.blocks.insert id ⟨id, nameHint, state.2⟩ } : Progress).Sound := by
      refine ⟨h.entries, ?_⟩
      have hnew' : id ∉ state.1.blocks.keys := by rwa [h.blocks]
      simp only
      rw [h.arena, hp.arena, Table.values_insert_of_notMem hnew', h.blocks, List.flatMap_append,
        List.flatMap_singleton]
    cases node.listOrEmpty "instructions" with
    | error e =>
      obtain ⟨hentries, harena, hblocks⟩ := (hp.report e).enter
      exact hstore _ ⟨hentries, harena, hblocks⟩
    | ok nodes => exact hstore _ (hp.readInstructions ht nodes)

theorem Sound.readBlocks (ht : types.Sound) (hp : p.Sound) (nodes : List Node) :
    (p.readBlocks types nodes).Sound :=
  List.foldlRecOn nodes _ hp fun _ h node _ => h.readBlock ht node

end Progress

theorem readProgress_sound (root : Node) : (readProgress root).Sound := by
  unfold readProgress
  dsimp only
  split
  · exact Progress.sound_start _
  · exact (Progress.sound_start _).readBlocks (readTypes_sound root) _

/-! ## The executable -/

/-- An executable that a description gives. -/
structure Described (e : Executable) : Prop where
  own : ∀ id i, (id, i) ∈ e.instructions.entries → i.id = id
  arena : e.instructions.keys = e.blocks.values.flatMap Block.instructions
  operations : ∀ i ∈ e.instructions.values, i.operation.Recognised
  values : ∀ i ∈ e.instructions.values, i.ValueFits
  references : ∀ i ∈ e.instructions.values, ∀ id ∈ i.references, id ∈ e.instructions.keys

namespace Progress

variable {p : Progress}

/-- Counting changes the use count only. -/
theorem counted_eq (entry : Entry) :
    ∃ n, p.counted entry = { entry.instruction with refCount := n } := by
  unfold counted
  split
  · exact ⟨entry.instruction.refCount, rfl⟩
  · exact ⟨_, rfl⟩

theorem mem_executable {id : InstrId} {i : Instruction}
    (h : (id, i) ∈ p.executable.instructions.entries) :
    ∃ entry, (id, entry) ∈ p.entries.entries ∧ p.counted entry = i := by
  obtain ⟨⟨id', entry⟩, hentry, heq⟩ := List.mem_map.mp h
  cases heq
  exact ⟨entry, hentry, rfl⟩

/-- Without an error, every name in a value leads to an entry. -/
theorem reference_mem_keys (hp : p.Sound) (herrors : p.allErrors = []) {id : InstrId}
    {entry : Entry} (hentry : (id, entry) ∈ p.entries.entries) {r : InstrId}
    (hr : r ∈ entry.instruction.references) : r ∈ p.entries.keys := by
  have hnone : p.valueErrors entry = [] := by
    rw [allErrors, List.append_eq_nil_iff, List.flatMap_eq_nil_iff] at herrors
    exact herrors.2 entry (Table.mem_values_iff.mpr ⟨id, hentry⟩)
  unfold valueErrors at hnone
  split at hnone
  · rename_i hnode
    rw [(hp.entries id entry hentry).2.unnamed hnode] at hr
    cases hr
  · rw [List.map_eq_nil_iff, List.filter_eq_nil_iff] at hnone
    have hknown := hnone r hr
    rwa [Bool.not_eq_true', Bool.not_eq_false, Table.contains_iff] at hknown

theorem valueErrors_eq_nil {entry : Entry}
    (h : ∀ r ∈ entry.instruction.references, r ∈ p.entries.keys) : p.valueErrors entry = [] := by
  unfold valueErrors
  split
  · rfl
  · rw [List.map_eq_nil_iff, List.filter_eq_nil_iff]
    intro r hr
    rw [Table.contains_iff.mpr (h r hr)]
    exact Bool.false_ne_true

theorem Sound.described (hp : p.Sound) (herrors : p.allErrors = []) : Described p.executable := by
  have hkeys : p.executable.instructions.keys = p.entries.keys := Table.keys_mapValues _ _
  have hentry {i : Instruction} (hi : i ∈ p.executable.instructions.values) :
      ∃ id entry n, (id, entry) ∈ p.entries.entries ∧ entry.Sound ∧
        i = { entry.instruction with refCount := n } := by
    obtain ⟨id, hi⟩ := Table.mem_values_iff.mp hi
    obtain ⟨entry, hentry, rfl⟩ := mem_executable hi
    obtain ⟨n, hn⟩ := p.counted_eq entry
    exact ⟨id, entry, n, hentry, (hp.entries id entry hentry).2, hn⟩
  constructor
  case own =>
    intro id i hi
    obtain ⟨entry, hentry, rfl⟩ := mem_executable hi
    obtain ⟨n, hn⟩ := p.counted_eq entry
    rw [hn]
    exact (hp.entries id entry hentry).1
  case arena => exact hkeys.trans hp.arena
  case operations =>
    intro i hi
    obtain ⟨id, entry, n, -, hsound, rfl⟩ := hentry hi
    exact hsound.operation
  case values =>
    intro i hi
    obtain ⟨id, entry, n, -, hsound, rfl⟩ := hentry hi
    exact Instruction.valueFits_of_readsAt hsound.type hsound.value
  case references =>
    intro i hi r hr
    obtain ⟨id, entry, n, hmem, -, rfl⟩ := hentry hi
    rw [hkeys]
    exact reference_mem_keys hp herrors hmem hr

end Progress

/-- What is loaded is the outcome of reading, once there are block entries. -/
theorem load_of_blocks {doc : Doc} {nodes : List Node} (h : blockNodes (.root doc) = .ok nodes) :
    load doc = (readProgress (.root doc)).outcome := by
  obtain ⟨_, hfield, -⟩ := bind_eq_ok.mp h
  obtain ⟨_, hfield, -⟩ := bind_eq_ok.mp hfield
  cases doc with
  | map entries => rfl
  | _ => cases hfield

/-- A document has an executable if reading it gave no problem. -/
theorem progress_of_load {doc : Doc} {e : Executable} (h : (load doc).value = some e) :
    (readProgress (.root doc)).allErrors = [] ∧ e = (readProgress (.root doc)).executable := by
  unfold load at h
  dsimp only at h
  split at h
  · cases h
  · unfold Progress.outcome at h
    split at h
    · rename_i herrors
      cases h
      exact ⟨List.isEmpty_iff.mp herrors, rfl⟩
    · cases h

theorem described_of_load {doc : Doc} {e : Executable} (h : (load doc).value = some e) :
    Described e := by
  obtain ⟨herrors, rfl⟩ := progress_of_load h
  exact (readProgress_sound _).described herrors

end Description

end BlockIr
