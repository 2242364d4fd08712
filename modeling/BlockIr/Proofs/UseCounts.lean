import BlockIr.Builder
import BlockIr.Proofs.Issues

/-!
# Use counts of built executables

A builder counts a use when the instruction that uses another one is appended: at once if the
used instruction is in the arena, and otherwise when that one is appended. Only an instruction
that names its own id falls between the two. It is not in the arena while its operands are
counted, and what was kept aside for its id has been taken before, so these uses are lost.

* `Builder.refCount_run`: after every run, a use count and the slots of the instruction itself
  that name it add up to the count of its draft and the slots of all instructions that name it.
  So the count is exact if and only if the instruction does not name itself, and the validation
  warns of an executable built without use counts of its own only for such an instruction.
* `Builder.refCount_loop`: the loop that has one instruction, a phi of itself.
-/

namespace BlockIr.Builder

/-! ## Runs -/

/-- A call to a builder. -/
inductive Call where
  | block (nameHint : String)
  | peek
  | add (target : BlockId) (draft : Draft)

/-- A builder and the drafts it has taken, in order. -/
structure History where
  builder : Builder
  drafts : List Draft

namespace History

def empty : History := ⟨.empty, []⟩

/-- A call without a result leaves everything as it is. -/
def call (h : History) : Call → History
  | .block nameHint => { h with builder := (h.builder.block nameHint).2 }
  | .peek => h
  | .add target draft =>
    match h.builder.add target draft with
    | .ok (_, builder) => ⟨builder, h.drafts ++ [draft]⟩
    | .error _ => h

/-- What a fresh builder has become after some calls. -/
def run (calls : List Call) : History := calls.foldl call empty

end History

/-- Operand slots of drafts. -/
def slots (drafts : List Draft) : List InstrId := drafts.flatMap fun d => d.operation.operands

theorem slots_append (ds ds' : List Draft) : slots (ds ++ ds') = slots ds ++ slots ds' :=
  List.flatMap_append

theorem slots_singleton (d : Draft) : slots [d] = d.operation.operands :=
  List.flatMap_singleton _ _

/-- The entry of a draft. Its use count has one use for every slot of another draft. -/
def entryOf (drafts : List Draft) (k : Nat) (draft : Draft) : InstrId × Instruction :=
  (k,
    { id := k
      type := draft.type
      refCount := draft.refCount + (slots (drafts.eraseIdx k)).count (k : InstrId)
      value := draft.value
      operation := draft.operation })

/-- What the calls up to now have left. Uses that are kept aside only matter for ids that were
not handed out. -/
structure Counted (h : History) : Prop where
  next : h.builder.nextInstruction = h.drafts.length
  arena : h.builder.executable.instructions.entries = h.drafts.mapIdx (entryOf h.drafts)
  pending : ∀ id, id ∉ h.builder.executable.instructions.keys →
    h.builder.pending id = (slots h.drafts).count id

/-! ## Counting the operands of one instruction -/

/-- An entry with a use for every slot that names it. -/
def recount (ops : List InstrId) (entry : InstrId × Instruction) : InstrId × Instruction :=
  (entry.1, { entry.2 with refCount := entry.2.refCount + (ops.count entry.1 : Nat) })

/-- `b'` is `b` with a use for every slot in `ops`. -/
structure Uses (b b' : Builder) (ops : List InstrId) : Prop where
  blocks : b'.executable.blocks = b.executable.blocks
  nextBlock : b'.nextBlock = b.nextBlock
  nextInstruction : b'.nextInstruction = b.nextInstruction
  arena : b'.executable.instructions.entries =
    b.executable.instructions.entries.map (recount ops)
  pending : ∀ id, id ∉ b.executable.instructions.keys →
    b'.pending id = b.pending id + ops.count id

theorem recount_nil : recount [] = id := by
  funext entry
  simp [recount]

theorem recount_comp (ops ops' : List InstrId) :
    recount ops' ∘ recount ops = recount (ops ++ ops') := by
  funext entry
  simp [recount, Int.add_assoc]

theorem Uses.keys {b b' : Builder} {ops : List InstrId} (h : Uses b b' ops) :
    b'.executable.instructions.keys = b.executable.instructions.keys := by
  simp [Table.keys, h.arena, recount, Function.comp_def]

theorem Uses.refl (b : Builder) : Uses b b [] where
  blocks := rfl
  nextBlock := rfl
  nextInstruction := rfl
  arena := by rw [recount_nil, List.map_id]
  pending := by simp

theorem Uses.trans {b b' b'' : Builder} {ops ops' : List InstrId} (h : Uses b b' ops)
    (h' : Uses b' b'' ops') : Uses b b'' (ops ++ ops') where
  blocks := h'.blocks.trans h.blocks
  nextBlock := h'.nextBlock.trans h.nextBlock
  nextInstruction := h'.nextInstruction.trans h.nextInstruction
  arena := by rw [h'.arena, h.arena, List.map_map, recount_comp]
  pending id hid := by
    rw [h'.pending id (h.keys ▸ hid), h.pending id hid, List.count_append, Nat.add_assoc]

theorem pending_countUse {b : Builder} {op id : InstrId}
    (hop : op ∉ b.executable.instructions.keys) :
    (b.countUse op).pending id = b.pending id + [op].count id := by
  rw [countUse, if_neg (by rwa [Table.contains_iff])]
  simp only [pending, Table.find?_insert, List.count_singleton, beq_iff_eq]
  split
  · rename_i heq
    rw [heq]
    rfl
  · rfl

/-- A use of a stored instruction goes into the arena, any other one is kept aside. -/
theorem uses_countUse (b : Builder) (op : InstrId) : Uses b (b.countUse op) [op] := by
  by_cases hop : op ∈ b.executable.instructions.keys
  · have hb : b.countUse op = { b with
        executable := { b.executable with
          instructions := b.executable.instructions.modify op fun i =>
            { i with refCount := i.refCount + 1 } } } :=
      if_pos (Table.contains_iff.mpr hop)
    rw [hb]
    refine ⟨rfl, rfl, rfl, ?_, ?_⟩
    · apply List.map_congr_left
      intro entry _
      by_cases heq : entry.1 = op
      · simp [recount, heq]
      · simp [recount, heq, Ne.symm heq]
    · intro id hid
      have hne : op ≠ id := fun heq => hid (heq ▸ hop)
      simp [pending, hne]
  · refine ⟨?_, ?_, ?_, ?_, fun id _ => pending_countUse hop⟩
    · simp [countUse, Table.contains_iff, hop]
    · simp [countUse, Table.contains_iff, hop]
    · simp [countUse, Table.contains_iff, hop]
    · have hb : (b.countUse op).executable = b.executable := by
        simp [countUse, Table.contains_iff, hop]
      rw [hb]
      symm
      refine (List.map_congr_left fun entry hentry => ?_).trans (List.map_id _)
      have hne : op ≠ entry.1 := fun heq => hop (heq ▸ Table.mem_keys_of_mem hentry)
      simp [recount, hne]

theorem uses_foldl (ops : List InstrId) (b : Builder) : Uses b (ops.foldl countUse b) ops := by
  induction ops generalizing b with
  | nil => exact .refl b
  | cons op ops ih => exact (uses_countUse b op).trans (ih (b.countUse op))

/-! ## One call -/

/-- `b'` is `b` with `draft` appended to the block `target`. -/
structure Added (b b' : Builder) (target : BlockId) (draft : Draft) : Prop where
  nextBlock : b'.nextBlock = b.nextBlock
  nextInstruction : b'.nextInstruction = b.nextInstruction + 1
  blocks : b'.executable.blocks = b.executable.blocks.modify target fun block =>
    { block with instructions := block.instructions ++ [b.peekId] }
  arena : b.peekId ∉ b.executable.instructions.keys →
    b'.executable.instructions.entries =
      b.executable.instructions.entries.map (recount draft.operation.operands) ++
        [(b.peekId,
          { id := b.peekId
            type := draft.type
            refCount := draft.refCount + b.pending b.peekId
            value := draft.value
            operation := draft.operation })]
  pending : ∀ id, id ∉ b.executable.instructions.keys → id ≠ b.peekId →
    b'.pending id = b.pending id + draft.operation.operands.count id

theorem added_of_add {b b' : Builder} {target : BlockId} {draft : Draft} {id : InstrId}
    (h : b.add target draft = .ok (id, b')) : id = b.peekId ∧ Added b b' target draft := by
  unfold Builder.add at h
  split at h
  · simp only [Except.ok.injEq, Prod.mk.injEq] at h
    obtain ⟨rfl, rfl⟩ := h
    have huses := uses_foldl draft.operation.operands
      { b with
        pendingUses := b.pendingUses.insert b.peekId 0
        nextInstruction := b.nextInstruction + 1 }
    refine ⟨rfl, huses.nextBlock, huses.nextInstruction, ?_, ?_, ?_⟩
    · refine congrArg (fun blocks => Table.modify blocks target fun block =>
        { block with instructions := block.instructions ++ [b.peekId] }) huses.blocks
    · intro hfresh
      refine (Table.entries_insert_of_notMem (huses.keys ▸ hfresh)).trans ?_
      exact congrArg (· ++ _) huses.arena
    · intro id hid hne
      refine (huses.pending id hid).trans ?_
      rw [pending, Table.find?_insert, if_neg (Ne.symm hne), pending]
  · cases h

theorem entryOf_append {ds : List Draft} (d : Draft) {k : Nat} (hk : k < ds.length)
    (draft : Draft) :
    entryOf (ds ++ [d]) k draft = recount d.operation.operands (entryOf ds k draft) := by
  simp [entryOf, recount, List.eraseIdx_append_of_lt_length hk, slots_append, slots_singleton,
    Int.add_assoc]

theorem mapIdx_entryOf_append (ds : List Draft) (d : Draft) :
    (ds ++ [d]).mapIdx (entryOf (ds ++ [d])) =
      (ds.mapIdx (entryOf ds)).map (recount d.operation.operands) ++
        [entryOf (ds ++ [d]) ds.length d] := by
  rw [List.mapIdx_concat]
  congr 1
  apply List.ext_getElem (by simp)
  intro k hk _
  rw [List.length_mapIdx] at hk
  simp [entryOf_append d hk]

namespace Counted

variable {h : History}

theorem empty : Counted .empty where
  next := rfl
  arena := rfl
  pending _ _ := rfl

theorem mem_keys (hh : Counted h) {id : InstrId} :
    id ∈ h.builder.executable.instructions.keys ↔ ∃ k : Nat, k < h.drafts.length ∧ id = k := by
  rw [Table.keys, hh.arena, List.mem_map]
  simp only [List.mem_mapIdx, entryOf]
  constructor
  · rintro ⟨_, ⟨k, hk, rfl⟩, rfl⟩
    exact ⟨k, hk, rfl⟩
  · rintro ⟨k, hk, rfl⟩
    exact ⟨_, ⟨k, hk, rfl⟩, rfl⟩

theorem peekId (hh : Counted h) : h.builder.peekId = (h.drafts.length : InstrId) :=
  congrArg _ hh.next

/-- The next id is not in the arena, so all its uses up to now are kept aside. -/
theorem peekId_notMem (hh : Counted h) :
    h.builder.peekId ∉ h.builder.executable.instructions.keys := by
  rw [hh.peekId, hh.mem_keys]
  rintro ⟨k, hk, heq⟩
  exact absurd (Int.natCast_inj.mp heq) (by omega)

theorem add (hh : Counted h) {target : BlockId} {draft : Draft} {b : Builder}
    (hadd : Added h.builder b target draft) : Counted ⟨b, h.drafts ++ [draft]⟩ := by
  have harena := hadd.arena hh.peekId_notMem
  refine ⟨?_, ?_, ?_⟩
  · rw [hadd.nextInstruction, hh.next, List.length_append, List.length_singleton]
  · refine harena.trans ?_
    rw [mapIdx_entryOf_append, hh.arena, hh.pending _ hh.peekId_notMem, hh.peekId]
    simp [entryOf, List.eraseIdx_append_of_length_le (Nat.le_refl _)]
  · intro id hid
    rw [Table.keys, harena, List.map_append, List.map_map, List.mem_append, not_or] at hid
    obtain ⟨hold, hnew⟩ := hid
    rw [hadd.pending id hold (by simpa using hnew), hh.pending id hold, slots_append,
      slots_singleton, List.count_append]

theorem call (hh : Counted h) (c : Call) : Counted (h.call c) := by
  cases c with
  | block nameHint => exact ⟨hh.next, hh.arena, hh.pending⟩
  | peek => exact hh
  | add target draft =>
    simp only [History.call]
    split
    · rename_i hadd
      exact hh.add (added_of_add hadd).2
    · exact hh

theorem run (calls : List Call) : Counted (.run calls) :=
  List.foldlRecOn calls History.call empty fun _ hh c _ => hh.call c

/-- The slots of the arena are the slots of the drafts. -/
theorem operandSlots (hh : Counted h) :
    h.builder.executable.operandSlots = slots h.drafts := by
  have hvalues : h.builder.executable.instructions.values.map Instruction.operands =
      h.drafts.map fun d => d.operation.operands := by
    rw [Table.values, hh.arena]
    exact List.ext_getElem (by simp) fun k _ _ => by simp [entryOf, Instruction.operands]
  rw [Executable.operandSlots, List.flatMap_def, hvalues, slots, List.flatMap_def]

theorem mem_entries (hh : Counted h) {entry : InstrId × Instruction} :
    entry ∈ h.builder.executable.instructions.entries ↔
      ∃ k draft, h.drafts[k]? = some draft ∧ entryOf h.drafts k draft = entry := by
  rw [hh.arena, List.mem_mapIdx]
  constructor
  · rintro ⟨k, hk, hentry⟩
    exact ⟨k, _, List.getElem?_eq_getElem hk, hentry⟩
  · rintro ⟨k, draft, hk, hentry⟩
    obtain ⟨hlt, rfl⟩ := List.getElem?_eq_some_iff.mp hk
    exact ⟨k, hlt, hentry⟩

theorem find?_eq (hh : Counted h) {k : Nat} {draft : Draft} (hk : h.drafts[k]? = some draft) :
    h.builder.executable.instructions.find? (k : InstrId) =
      some (entryOf h.drafts k draft).2 := by
  rw [Table.find?_eq_some_iff]
  exact hh.mem_entries.mpr ⟨k, draft, hk, rfl⟩

end Counted

/-! ## All calls together -/

theorem count_slots_eraseIdx {ds : List Draft} {k : Nat} {d : Draft} (hk : ds[k]? = some d)
    (id : InstrId) :
    (slots ds).count id = (slots (ds.eraseIdx k)).count id + d.operation.operands.count id := by
  obtain ⟨hlt, rfl⟩ := List.getElem?_eq_some_iff.mp hk
  have hsplit : ds = ds.take k ++ ([ds[k]] ++ ds.drop (k + 1)) := by simp
  rw [List.eraseIdx_eq_take_drop_succ]
  conv_lhs => rw [hsplit]
  simp only [slots_append, slots_singleton, List.count_append]
  omega

/-- A use count is that of the draft and one use for every slot of another instruction that
names the id. It is exact, and the validation accepts it, if and only if the instruction does
not name itself. -/
theorem refCount_run (calls : List Call) :
    let h := History.run calls
    let e := h.builder.executable
    (∀ (k : Nat) (draft : Draft), h.drafts[k]? = some draft →
      ∃ i, e.instructions.find? (k : InstrId) = some i ∧ i.operation = draft.operation ∧
        i.refCount + i.operands.count (k : InstrId) = draft.refCount + e.useCount k ∧
        (i.refCount = draft.refCount + e.useCount k ↔ (k : InstrId) ∉ i.operands)) ∧
    ((∀ draft ∈ h.drafts, draft.refCount = 0) →
      ((∃ issue ∈ e.issues, issue.code = "IRV101") ↔
        ∃ i ∈ e.instructions.values, i.hasSideEffects = false ∧ i.id ∈ i.operands)) := by
  intro h e
  have hh : Counted h := .run calls
  have hcount {k : Nat} {draft : Draft} (hk : h.drafts[k]? = some draft) :
      (entryOf h.drafts k draft).2.refCount + draft.operation.operands.count (k : InstrId) =
        draft.refCount + e.useCount k := by
    have hslots := count_slots_eraseIdx hk (k : InstrId)
    rw [← hh.operandSlots] at hslots
    simp only [entryOf, Executable.useCount, e]
    omega
  constructor
  · intro k draft hk
    refine ⟨_, hh.find?_eq hk, rfl, hcount hk, ?_⟩
    rw [← hcount hk, ← List.count_eq_zero]
    simp only [Instruction.operands, entryOf]
    omega
  · intro hzero
    constructor
    · rintro ⟨issue, hissue, hcode⟩
      obtain ⟨key, given, counted, rfl⟩ := code_eq_miscounted hcode
      obtain ⟨i, hmem, heffects, hne, -, -⟩ := miscounted_mem_issues.mp hissue
      obtain ⟨k, draft, hk, hentry⟩ := hh.mem_entries.mp hmem
      cases hentry
      refine ⟨_, Table.mem_values_iff.mpr ⟨_, hmem⟩, heffects, ?_⟩
      have hdraft := hzero _ (List.mem_of_getElem? hk)
      by_contra hself
      have hnone := List.count_eq_zero.mpr hself
      have hsum := hcount hk
      simp only [Instruction.operands, entryOf] at hnone hne hsum
      omega
    · rintro ⟨i, hi, heffects, hself⟩
      obtain ⟨key, hmem⟩ := Table.mem_values_iff.mp hi
      obtain ⟨k, draft, hk, hentry⟩ := hh.mem_entries.mp hmem
      cases hentry
      refine ⟨_, miscounted_mem_issues.mpr ⟨_, hmem, heffects, ?_, rfl, rfl⟩, rfl⟩
      have hdraft := hzero _ (List.mem_of_getElem? hk)
      have hsome := List.count_pos_iff.mpr hself
      have hsum := hcount hk
      simp only [Instruction.operands, entryOf] at hsome hsum ⊢
      omega

/-- A phi with an edge from itself and one from the instruction after it. In between an addition
to a missing block fails. -/
def countedLoop : List Call :=
  [.block "loop",
   .add 0 ⟨none, 0, .runtime, .phi [⟨0, 0⟩, ⟨0, 1⟩]⟩,
   .add 7 ⟨none, 0, .runtime, .loadPtr 0⟩,
   .add 0 ⟨none, 0, .runtime, .binary .add 0 0⟩]

theorem refCount_countedLoop :
    let e := (History.run countedLoop).builder.executable
    (∃ i, e.instructions.find? 0 = some i ∧ i.operands = [0, 1] ∧ e.useCount 0 = 3 ∧
      i.refCount = 2) ∧
    ∃ issue ∈ e.issues, issue.code = "IRV101" := by
  intro e
  obtain ⟨hcounts, hwarns⟩ := refCount_run countedLoop
  obtain ⟨i, hi, hop, hsum, -⟩ := hcounts 0 ⟨none, 0, .runtime, .phi [⟨0, 0⟩, ⟨0, 1⟩]⟩ rfl
  have hoperands : i.operands = [0, 1] := congrArg Operation.operands hop
  have huses : e.useCount 0 = 3 := by decide
  refine ⟨⟨i, hi, hoperands, huses, ?_⟩, ?_⟩
  · have hsum : i.refCount + (i.operands.count 0 : Nat) = 0 + (e.useCount 0 : Nat) := hsum
    have hself : i.operands.count 0 = 1 := by rw [hoperands]; rfl
    omega
  · exact (hwarns (by decide)).mpr ⟨_, List.mem_cons_self, rfl, by decide⟩

/-- The phi of a block that only loops has one use, its own, and a use count of zero. -/
theorem refCount_loop :
    let e := (History.run
      [.block "loop", .add 0 ⟨none, 0, .runtime, .phi [⟨0, 0⟩]⟩]).builder.executable
    (∃ i, e.instructions.find? 0 = some i ∧ i.refCount = 0) ∧ e.useCount 0 = 1 ∧
      e.issues = [.unterminated "loop_0" "phi", .miscounted 0 0 1] ∧
      (Issue.miscounted 0 0 1).code = "IRV101" :=
  ⟨⟨_, rfl, rfl⟩, by decide, by decide, rfl⟩

end BlockIr.Builder
