import Mathlib.Data.List.Induction
import BlockIr.Proofs.UseCounts

/-!
# Where built instructions stand

The ids of a builder are positions: the blocks are numbered in the order in which they were made,
and the instructions in the order in which they were added, over all blocks. A block lists what
was added to it, in that order, and an addition to a block that was not made leaves everything as
it is. So the structure of a built executable never is at fault; what can be at fault is what a
draft names.

* `Plan`: what some calls make, said without a builder.
* `Placed.run`: what a builder has become after some calls is what the calls make.
* `Builder.placement_run`: the structure of every built executable, and what the validation can
  still report of it.
-/

namespace BlockIr.Builder

/-! ## Plans -/

/-- What some calls make: the name hints of blocks, and drafts with the blocks they are added
to. -/
structure Plan where
  hints : List String
  drafts : List (BlockId × Draft)

/-- The ids of the first `n` things that are made. -/
def firstIds (n : Nat) : List Int := (List.range n).map Int.ofNat

theorem mem_firstIds {n : Nat} {id : Int} : id ∈ firstIds n ↔ ∃ k : Nat, k < n ∧ id = k := by
  simp only [firstIds, List.mem_map, List.mem_range, @eq_comm _ id]
  rfl

namespace Plan

def empty : Plan := ⟨[], []⟩

/-- A draft for a block that is not made is left out. -/
def call (p : Plan) : Call → Plan
  | .block nameHint => { p with hints := p.hints ++ [nameHint] }
  | .peek => p
  | .add target draft =>
    if target ∈ firstIds p.hints.length then { p with drafts := p.drafts ++ [(target, draft)] }
    else p

def run (calls : List Call) : Plan := calls.foldl call empty

/-- The positions of the drafts for a block. -/
def listOf (p : Plan) (block : BlockId) : List InstrId :=
  (p.drafts.zipIdx.filter fun entry => entry.1.1 = block).map fun entry => (entry.2 : InstrId)

/-- The entry of a block. -/
def blockEntry (p : Plan) (k : Nat) (nameHint : String) : BlockId × Block :=
  (k, ⟨k, nameHint, p.listOf k⟩)

variable {p : Plan} {block : BlockId} {id : InstrId}

theorem mem_listOf : id ∈ p.listOf block ↔
    ∃ (k : Nat) (draft : Draft), p.drafts[k]? = some (block, draft) ∧ id = k := by
  simp only [listOf, List.mem_map, List.mem_filter, List.mem_zipIdx_iff_getElem?,
    decide_eq_true_eq]
  constructor
  · rintro ⟨⟨⟨target, draft⟩, k⟩, ⟨hk, rfl⟩, rfl⟩
    exact ⟨k, draft, hk, rfl⟩
  · rintro ⟨k, draft, hk, rfl⟩
    exact ⟨⟨⟨block, draft⟩, k⟩, ⟨hk, rfl⟩, rfl⟩

/-- Drafts are listed in the order in which they were added. -/
theorem pairwise_listOf (p : Plan) (block : BlockId) : (p.listOf block).Pairwise (· < ·) := by
  rw [listOf, List.pairwise_map]
  apply List.Pairwise.filter
  have hpositions : (p.drafts.zipIdx.map Prod.snd).Pairwise (· < ·) := by
    rw [List.zipIdx_map_snd, ← List.range_eq_range']
    exact List.pairwise_lt_range
  exact (List.pairwise_map.mp hpositions).imp fun h => Int.ofNat_lt.mpr h

/-- One more draft is listed by its block. -/
theorem listOf_concat (p : Plan) (target : BlockId) (draft : Draft) (block : BlockId) :
    listOf { p with drafts := p.drafts ++ [(target, draft)] } block =
      if block = target then p.listOf block ++ [(p.drafts.length : InstrId)]
      else p.listOf block := by
  by_cases hblock : target = block
  · simp [listOf, List.zipIdx_append, hblock]
  · simp [listOf, List.zipIdx_append, hblock, Ne.symm hblock]

/-- What is wrong with an executable because of a draft: it names an id that is not handed out,
or it is a phi without edges. -/
inductive Astray (p : Plan) : Issue → Prop where
  | operand {k : Nat} {block : BlockId} {draft : Draft} {id : InstrId} :
    p.drafts[k]? = some (block, draft) → id ∈ draft.operation.operands →
    id ∉ firstIds p.drafts.length → Astray p (.missingOperand k id)
  | reference {k : Nat} {block : BlockId} {draft : Draft} {id : InstrId} :
    p.drafts[k]? = some (block, draft) → draft.value.Names id →
    id ∉ firstIds p.drafts.length → Astray p (.missingReference k id)
  | target {k : Nat} {block : BlockId} {draft : Draft} {id : BlockId} :
    p.drafts[k]? = some (block, draft) → id ∈ draft.operation.targets →
    id ∉ firstIds p.hints.length → Astray p (.missingTarget k id)
  | emptyPhi {k : Nat} {block : BlockId} {draft : Draft} :
    p.drafts[k]? = some (block, draft) → draft.operation = .phi [] → Astray p (.emptyPhi k)

theorem Astray.code {issue : Issue} (h : p.Astray issue) :
    (message issue).code ∈ ["IRV006", "IRV007", "IRV008"] := by
  cases h <;> simp [message, Issue.code]

end Plan

/-! ## One call -/

theorem add_of_notMem {b : Builder} {target : BlockId} (h : target ∉ b.executable.blocks.keys)
    (draft : Draft) : b.add target draft = .error ⟨target⟩ := by
  rw [Builder.add, if_neg (by rwa [Table.contains_iff])]

theorem add_of_mem {b : Builder} {target : BlockId} (h : target ∈ b.executable.blocks.keys)
    (draft : Draft) : ∃ b', b.add target draft = .ok (b.peekId, b') ∧ Added b b' target draft := by
  have hok : ∃ result, b.add target draft = .ok result := by
    rw [Builder.add, if_pos (Table.contains_iff.mpr h)]
    exact ⟨_, rfl⟩
  obtain ⟨⟨id, b'⟩, hadd⟩ := hok
  obtain ⟨rfl, hadded⟩ := added_of_add hadd
  exact ⟨b', hadd, hadded⟩

/-- A history is what a plan makes. -/
structure Placed (h : History) (p : Plan) : Prop where
  drafts : h.drafts = p.drafts.map Prod.snd
  targets : ∀ entry ∈ p.drafts, entry.1 ∈ firstIds p.hints.length
  nextBlock : h.builder.nextBlock = p.hints.length
  blocks : h.builder.executable.blocks.entries = p.hints.mapIdx p.blockEntry

namespace Placed

variable {h : History} {p : Plan}

theorem empty : Placed .empty .empty where
  drafts := rfl
  targets := by simp [Plan.empty]
  nextBlock := rfl
  blocks := rfl

theorem blockKeys (hp : Placed h p) :
    h.builder.executable.blocks.keys = firstIds p.hints.length := by
  rw [Table.keys, hp.blocks]
  apply List.ext_getElem
  · simp [firstIds]
  · intro k _ _
    simp [firstIds, Plan.blockEntry]

theorem block (hp : Placed h p) (nameHint : String) :
    Placed (h.call (.block nameHint)) { p with hints := p.hints ++ [nameHint] } := by
  have hfresh : (p.hints.length : BlockId) ∉ firstIds p.hints.length := by
    rw [mem_firstIds]
    rintro ⟨k, hk, heq⟩
    exact absurd (Int.natCast_inj.mp heq) (by omega)
  have hnone : p.listOf p.hints.length = [] := by
    rw [List.eq_nil_iff_forall_not_mem]
    intro id hid
    obtain ⟨k, draft, hk, -⟩ := Plan.mem_listOf.mp hid
    exact hfresh (hp.targets _ (List.mem_of_getElem? hk))
  constructor
  case drafts => exact hp.drafts
  case targets =>
    intro entry hentry
    obtain ⟨k, hk, hid⟩ := mem_firstIds.mp (hp.targets entry hentry)
    refine mem_firstIds.mpr ⟨k, ?_, hid⟩
    simp only [List.length_append]
    omega
  case nextBlock => simp [History.call, Builder.block, hp.nextBlock]
  case blocks =>
    have hkey : (h.builder.nextBlock : BlockId) ∉ h.builder.executable.blocks.keys := by
      rwa [hp.blockKeys, hp.nextBlock]
    refine (Table.entries_insert_of_notMem hkey).trans ?_
    rw [hp.blocks, hp.nextBlock]
    refine (congrArg (_ ++ [·]) ?_).trans List.mapIdx_concat.symm
    exact congrArg (fun ids => (_, (⟨_, nameHint, ids⟩ : Block))) hnone.symm

theorem add (hp : Placed h p) (hh : Counted h) {target : BlockId}
    (htarget : target ∈ firstIds p.hints.length) {draft : Draft} {b : Builder}
    (hadd : Added h.builder b target draft) :
    Placed ⟨b, h.drafts ++ [draft]⟩ { p with drafts := p.drafts ++ [(target, draft)] } := by
  constructor
  case drafts => rw [hp.drafts, List.map_append, List.map_singleton]
  case targets =>
    intro entry hentry
    rcases List.mem_append.mp hentry with hentry | hentry
    · exact hp.targets entry hentry
    · obtain rfl := List.mem_singleton.mp hentry
      exact htarget
  case nextBlock => exact hadd.nextBlock.trans hp.nextBlock
  case blocks =>
    have hpeek : h.builder.peekId = (p.drafts.length : InstrId) := by
      rw [hh.peekId, hp.drafts, List.length_map]
    rw [hadd.blocks, hpeek]
    refine (congrArg _ hp.blocks).trans ?_
    apply List.ext_getElem (by simp)
    intro k _ _
    simp only [List.getElem_map, List.getElem_mapIdx, Plan.blockEntry, Plan.listOf_concat]
    split <;> rfl

theorem call (hp : Placed h p) (hh : Counted h) (c : Call) : Placed (h.call c) (p.call c) := by
  cases c with
  | block nameHint => exact hp.block nameHint
  | peek => exact hp
  | add target draft =>
    simp only [History.call, Plan.call]
    by_cases htarget : target ∈ firstIds p.hints.length
    · obtain ⟨b, hadd, hadded⟩ := add_of_mem (hp.blockKeys ▸ htarget) draft
      rw [hadd, if_pos htarget]
      exact hp.add hh htarget hadded
    · rw [add_of_notMem (hp.blockKeys ▸ htarget), if_neg htarget]
      exact hp

/-- What a builder has become is what the calls make. -/
theorem run (calls : List Call) : Placed (.run calls) (.run calls) := by
  induction calls using List.reverseRecOn with
  | nil => exact empty
  | append_singleton calls c ih =>
    rw [History.run, List.foldl_concat, Plan.run, List.foldl_concat]
    exact ih.call (.run calls) c

/-- The instruction of a draft. -/
theorem find?_eq (hp : Placed h p) (hh : Counted h) {k : Nat} {target : BlockId} {draft : Draft}
    (hk : p.drafts[k]? = some (target, draft)) :
    ∃ i, h.builder.executable.instructions.find? (k : InstrId) = some i ∧ i.id = k ∧
      i.type = draft.type ∧ i.value = draft.value ∧ i.operation = draft.operation := by
  have hdraft : h.drafts[k]? = some draft := by rw [hp.drafts, List.getElem?_map, hk]; rfl
  exact ⟨_, hh.find?_eq hdraft, rfl, rfl, rfl, rfl⟩

/-- Every instruction is that of a draft. -/
theorem exists_draft (hp : Placed h p) (hh : Counted h) {key : InstrId} {i : Instruction}
    (hi : (key, i) ∈ h.builder.executable.instructions.entries) :
    ∃ (k : Nat) (target : BlockId) (draft : Draft), p.drafts[k]? = some (target, draft) ∧
      key = k ∧ i.id = k ∧ i.value = draft.value ∧ i.operation = draft.operation := by
  obtain ⟨k, draft, hk, hentry⟩ := hh.mem_entries.mp hi
  rw [hp.drafts, List.getElem?_map, Option.map_eq_some_iff] at hk
  obtain ⟨⟨target, _⟩, hk, rfl⟩ := hk
  cases hentry
  exact ⟨k, target, _, hk, rfl, rfl, rfl, rfl⟩

theorem instructionKeys (hp : Placed h p) (hh : Counted h) :
    h.builder.executable.instructions.keys = firstIds p.drafts.length := by
  rw [Table.keys, hh.arena, hp.drafts]
  apply List.ext_getElem
  · simp [firstIds]
  · intro k _ _
    simp [firstIds, entryOf]

theorem mem_blocks (hp : Placed h p) {key : BlockId} {block : Block} :
    (key, block) ∈ h.builder.executable.blocks.entries ↔
      ∃ k nameHint, p.hints[k]? = some nameHint ∧ p.blockEntry k nameHint = (key, block) := by
  rw [hp.blocks, List.mem_mapIdx]
  constructor
  · rintro ⟨k, hk, hentry⟩
    exact ⟨k, _, List.getElem?_eq_getElem hk, hentry⟩
  · rintro ⟨k, nameHint, hk, hentry⟩
    obtain ⟨hlt, rfl⟩ := List.getElem?_eq_some_iff.mp hk
    exact ⟨k, hlt, hentry⟩

/-- A block lists an instruction if and only if that was added to it. -/
theorem mem_instructions (hp : Placed h p) {key : BlockId} {block : Block}
    (hblock : (key, block) ∈ h.builder.executable.blocks.entries) {k : Nat} {target : BlockId}
    {draft : Draft} (hk : p.drafts[k]? = some (target, draft)) :
    (k : InstrId) ∈ block.instructions ↔ key = target := by
  obtain ⟨_, _, _, hentry⟩ := hp.mem_blocks.mp hblock
  cases hentry
  rw [Plan.mem_listOf]
  constructor
  · rintro ⟨k', draft', hk', heq⟩
    obtain rfl := Int.natCast_inj.mp heq
    cases hk.symm.trans hk'
    rfl
  · rintro rfl
    exact ⟨k, draft, hk, rfl⟩

theorem nodup_listings (hp : Placed h p) : h.builder.executable.listings.Nodup := by
  have hdistinct := List.pairwise_map.mp h.builder.executable.blocks.nodup
  rw [Executable.listings, Table.values, List.flatMap_map, List.nodup_flatMap]
  constructor
  · rintro ⟨key, block⟩ hblock
    obtain ⟨_, _, _, hentry⟩ := hp.mem_blocks.mp hblock
    cases hentry
    exact (p.pairwise_listOf _).imp Int.ne_of_lt
  · refine hdistinct.imp_of_mem ?_
    rintro ⟨key, block⟩ ⟨key', block'⟩ hblock hblock' hne id hid hid'
    obtain ⟨_, _, _, hentry⟩ := hp.mem_blocks.mp hblock
    cases hentry
    obtain ⟨k, draft, hk, rfl⟩ := Plan.mem_listOf.mp hid
    exact hne ((hp.mem_instructions hblock' hk).mp hid').symm

theorem count_listings (hp : Placed h p) {key : InstrId} (hkey : key ∈ firstIds p.drafts.length) :
    h.builder.executable.listings.count key = 1 := by
  obtain ⟨k, hk, rfl⟩ := mem_firstIds.mp hkey
  obtain ⟨⟨target, draft⟩, hk⟩ : ∃ entry, p.drafts[k]? = some entry :=
    ⟨_, List.getElem?_eq_getElem hk⟩
  have htarget := hp.targets _ (List.mem_of_getElem? hk)
  rw [← hp.blockKeys] at htarget
  obtain ⟨block, hblock⟩ := Table.exists_find?_of_mem_keys htarget
  have hlists := (hp.mem_instructions (Table.find?_eq_some_iff.mp hblock) hk).mpr rfl
  refine List.count_eq_one_of_mem hp.nodup_listings ?_
  exact List.mem_flatMap.mpr ⟨block, Table.mem_values_of_find? hblock, hlists⟩

/-- The executable is at fault exactly where a draft is. -/
theorem faults_iff (hp : Placed h p) (hh : Counted h) {issue : Issue} :
    h.builder.executable.Faults issue ↔ p.Astray issue := by
  have hid {key : BlockId} {block : Block}
      (hblock : (key, block) ∈ h.builder.executable.blocks.entries) : block.id = key := by
    obtain ⟨_, _, _, hentry⟩ := hp.mem_blocks.mp hblock
    cases hentry
    rfl
  constructor
  · intro hfault
    cases hfault with
    | @duplicateBlock before after key block hentries hearlier =>
      obtain ⟨⟨key', block'⟩, hmem, heq⟩ := List.mem_map.mp hearlier
      have hkeys := h.builder.executable.blocks.nodup
      rw [hentries, List.map_append, List.map_cons, List.nodup_append] at hkeys
      have hkey : key' ≠ key := hkeys.2.2 _ (List.mem_map_of_mem hmem) _ List.mem_cons_self
      have hblock' : block'.id = key' := hid (hentries ▸ List.mem_append_left _ hmem)
      have hblock : block.id = key :=
        hid (hentries ▸ List.mem_append_right _ List.mem_cons_self)
      exact absurd (hblock'.symm.trans (heq.trans hblock)) hkey
    | misplacedBlock hblock hkey => exact absurd (hid hblock).symm hkey
    | unknownListed hblock hlisted habsent =>
      obtain ⟨key, hblock⟩ := Table.mem_values_iff.mp hblock
      obtain ⟨_, _, _, hentry⟩ := hp.mem_blocks.mp hblock
      cases hentry
      obtain ⟨k, draft, hk, rfl⟩ := Plan.mem_listOf.mp hlisted
      obtain ⟨i, hi, -⟩ := hp.find?_eq hh hk
      exact absurd (Table.mem_keys_of_mem (Table.find?_eq_some_iff.mp hi)) habsent
    | orphan hkey hnone =>
      rw [hp.count_listings (hp.instructionKeys hh ▸ hkey)] at hnone
      cases hnone
    | shared hkey hmany =>
      rw [hp.count_listings (hp.instructionKeys hh ▸ hkey)] at hmany
      exact absurd hmany (Nat.lt_irrefl 1)
    | misplacedInstruction hi hkey =>
      obtain ⟨k, _, _, _, rfl, hown, -⟩ := hp.exists_draft hh hi
      exact absurd hown.symm hkey
    | missingOperand hi hoperand habsent =>
      obtain ⟨k, _, _, hk, rfl, -, -, hop⟩ := hp.exists_draft hh hi
      rw [hp.instructionKeys hh] at habsent
      exact .operand hk (hop ▸ hoperand) habsent
    | missingReference hi hname habsent =>
      obtain ⟨k, _, _, hk, rfl, -, hvalue, -⟩ := hp.exists_draft hh hi
      rw [hp.instructionKeys hh] at habsent
      exact .reference hk (hvalue ▸ hname) habsent
    | missingTarget hi htarget habsent =>
      obtain ⟨k, _, _, hk, rfl, -, -, hop⟩ := hp.exists_draft hh hi
      rw [hp.blockKeys] at habsent
      exact .target hk (hop ▸ htarget) habsent
    | emptyPhi hi hphi =>
      obtain ⟨k, _, _, hk, rfl, -, -, hop⟩ := hp.exists_draft hh hi
      exact .emptyPhi hk (hop ▸ hphi)
  · intro hastray
    cases hastray with
    | operand hk hoperand habsent =>
      obtain ⟨i, hi, -, -, -, hop⟩ := hp.find?_eq hh hk
      rw [← hp.instructionKeys hh] at habsent
      rw [← hop] at hoperand
      exact .missingOperand (Table.find?_eq_some_iff.mp hi) hoperand habsent
    | reference hk hname habsent =>
      obtain ⟨i, hi, -, -, hvalue, -⟩ := hp.find?_eq hh hk
      rw [← hp.instructionKeys hh] at habsent
      exact .missingReference (Table.find?_eq_some_iff.mp hi) (hvalue.symm ▸ hname) habsent
    | target hk htarget habsent =>
      obtain ⟨i, hi, -, -, -, hop⟩ := hp.find?_eq hh hk
      rw [← hp.blockKeys] at habsent
      rw [← hop] at htarget
      exact .missingTarget (Table.find?_eq_some_iff.mp hi) htarget habsent
    | emptyPhi hk hphi =>
      obtain ⟨i, hi, -, -, -, hop⟩ := hp.find?_eq hh hk
      exact .emptyPhi (Table.find?_eq_some_iff.mp hi) (hop.trans hphi)

end Placed

/-! ## All calls together -/

theorem find?_block_run (calls : List Call) {k : Nat} {nameHint : String}
    (hk : (Plan.run calls).hints[k]? = some nameHint) :
    (History.run calls).builder.executable.blocks.find? (k : BlockId) =
      some ⟨k, nameHint, (Plan.run calls).listOf k⟩ :=
  Table.find?_eq_some_iff.mpr ((Placed.run calls).mem_blocks.mpr ⟨k, nameHint, hk, rfl⟩)

theorem peekId_run (calls : List Call) :
    (History.run calls).builder.peekId = ((Plan.run calls).drafts.length : InstrId) := by
  rw [(Counted.run calls).peekId, (Placed.run calls).drafts, List.length_map]

/-- An addition that fails is as good as none. -/
theorem run_add_of_notMem {calls : List Call} {target : BlockId}
    (h : target ∉ (History.run calls).builder.executable.blocks.keys) (draft : Draft)
    (later : List Call) :
    History.run (calls ++ .add target draft :: later) = History.run (calls ++ later) := by
  have hcall : (History.run calls).call (.add target draft) = History.run calls := by
    rw [History.call, add_of_notMem h]
  rw [History.run, History.run, List.foldl_append, List.foldl_append, List.foldl_cons]
  exact congrArg (List.foldl History.call · later) hcall

/-- After any calls the blocks are numbered in the order in which they were made, and the
instructions in the order in which they were added, each stored under its own id; a block lists
what was added to it, in ascending order, and no other block lists it. The next instruction that is
added gets the id that can be seen now, whatever calls come before; an addition to a block that
does not exist fails and leaves no trace. The validation reports an error exactly where a draft
names an id that was not handed out, or is a phi without edges. -/
theorem placement_run (calls : List Call) :
    let p := Plan.run calls
    let b := (History.run calls).builder
    let e := b.executable
    (e.blocks.keys = firstIds p.hints.length ∧
      ∀ (k : Nat) (nameHint : String), p.hints[k]? = some nameHint →
        e.blocks.find? (k : BlockId) = some ⟨k, nameHint, p.listOf k⟩ ∧
          (p.listOf k).Pairwise (· < ·)) ∧
    (e.instructions.keys = firstIds p.drafts.length ∧
      ∀ (k : Nat) (target : BlockId) (draft : Draft), p.drafts[k]? = some (target, draft) →
        (∃ i, e.instructions.find? (k : InstrId) = some i ∧ i.id = k ∧ i.type = draft.type ∧
          i.value = draft.value ∧ i.operation = draft.operation) ∧
        target ∈ e.blocks.keys ∧
        ∀ key block, e.blocks.find? key = some block →
          ((k : InstrId) ∈ block.instructions ↔ key = target)) ∧
    (∀ later : List Call, (Plan.run (calls ++ later)).drafts = p.drafts →
      let b' := (History.run (calls ++ later)).builder
      b'.peekId = b.peekId ∧
        ∀ (target : BlockId) (draft : Draft), target ∈ b'.executable.blocks.keys →
          ∃ b'', b'.add target draft = .ok (b.peekId, b'')) ∧
    (∀ (target : BlockId) (draft : Draft), target ∉ e.blocks.keys →
      b.add target draft = .error ⟨target⟩ ∧
        ∀ later : List Call,
          History.run (calls ++ .add target draft :: later) = History.run (calls ++ later)) ∧
    (∀ issue ∈ e.validate.messages,
      (message issue).code ∈ ["IRV006", "IRV007", "IRV008", "IRV101", "IRV102"]) ∧
    ∀ issue, issue ∈ e.validate.errors ↔ p.Astray issue := by
  intro p b e
  have hp : Placed (History.run calls) p := .run calls
  have hh : Counted (History.run calls) := .run calls
  have hastray (issue : Issue) : issue ∈ e.validate.errors ↔ p.Astray issue :=
    Executable.mem_errors_validate.trans (hp.faults_iff hh)
  refine ⟨⟨hp.blockKeys, ?_⟩, ⟨hp.instructionKeys hh, ?_⟩, ?_, ?_, ?_, hastray⟩
  · intro k nameHint hk
    exact ⟨find?_block_run calls hk, p.pairwise_listOf k⟩
  · intro k target draft hk
    refine ⟨hp.find?_eq hh hk, ?_, ?_⟩
    · rw [hp.blockKeys]
      exact hp.targets _ (List.mem_of_getElem? hk)
    · intro key block hblock
      exact hp.mem_instructions (Table.find?_eq_some_iff.mp hblock) hk
  · intro later hsame b'
    have hpeek : b'.peekId = b.peekId := by
      rw [peekId_run, peekId_run, hsame]
    refine ⟨hpeek, ?_⟩
    intro target draft htarget
    obtain ⟨b'', hadd, -⟩ := add_of_mem htarget draft
    exact ⟨b'', hpeek ▸ hadd⟩
  · intro target draft htarget
    exact ⟨add_of_notMem htarget draft, run_add_of_notMem htarget draft⟩
  · intro issue hissue
    rw [Executable.messages_validate, Executable.mem_issues_iff, hp.faults_iff hh] at hissue
    rcases hissue with hissue | hissue
    · exact List.mem_append_left ["IRV101", "IRV102"] hissue.code
    · cases hissue <;> simp [message, Issue.code]

/-- Two blocks whose instructions are added in turn. The second block is not there when the first
addition to it fails. -/
def interleaved : List Call :=
  [.block "entry",
   .add 0 ⟨none, 0, .runtime, .loadPtr 4⟩,
   .add 1 ⟨none, 0, .runtime, .unreachable⟩,
   .block "loop",
   .add 1 ⟨none, 0, .runtime, .phi []⟩,
   .peek,
   .add 0 ⟨none, 0, .runtime, .br 7 false⟩]

theorem placement_interleaved :
    let b := (History.run interleaved).builder
    let e := b.executable
    e.blocks.find? 0 = some ⟨0, "entry", [0, 2]⟩ ∧ e.blocks.find? 1 = some ⟨1, "loop", [1]⟩ ∧
      (∃ i, e.instructions.find? 2 = some i ∧ i.operation = .br 7 false) ∧
      b.add 2 ⟨none, 0, .runtime, .unreachable⟩ = .error ⟨2⟩ ∧
      (∃ b', (b.block "exit").2.add 2 ⟨none, 0, .runtime, .unreachable⟩ = .ok (3, b')) ∧
      Issue.missingOperand 0 4 ∈ e.validate.errors ∧ Issue.emptyPhi 1 ∈ e.validate.errors ∧
      Issue.missingTarget 2 7 ∈ e.validate.errors := by
  intro b e
  obtain ⟨⟨-, hblocks⟩, ⟨-, hdrafts⟩, hnext, hfails, -, herrors⟩ := placement_run interleaved
  obtain ⟨⟨i, hi, -, -, -, hop⟩, -⟩ :=
    hdrafts 2 0 ⟨none, 0, .runtime, .br 7 false⟩ rfl
  refine ⟨(hblocks 0 "entry" rfl).1, (hblocks 1 "loop" rfl).1, ⟨i, hi, hop⟩, ?_, ?_, ?_, ?_, ?_⟩
  · exact (hfails 2 _ (by decide)).1
  · exact (hnext [.block "exit"] rfl).2 2 _ (by decide)
  · have hk : (Plan.run interleaved).drafts[0]? = some (0, ⟨none, 0, .runtime, .loadPtr 4⟩) := rfl
    exact (herrors _).mpr (.operand hk List.mem_cons_self (by decide))
  · have hk : (Plan.run interleaved).drafts[1]? = some (1, ⟨none, 0, .runtime, .phi []⟩) := rfl
    exact (herrors _).mpr (.emptyPhi hk rfl)
  · have hk : (Plan.run interleaved).drafts[2]? = some (0, ⟨none, 0, .runtime, .br 7 false⟩) := rfl
    exact (herrors _).mpr (.target hk List.mem_cons_self (by decide))

end BlockIr.Builder
