import BlockIr.Proofs.Table
import BlockIr.Validation

/-!
# What a validation reports

A validation reports a problem exactly where it is found. Which problems there are is said here
without the order in which they are looked for: an executable is at fault because of its
entries, of its lists, or of an id that leads nowhere.

* `Value.mem_references_iff`: the names inside a value, at any depth.
* `Executable.mem_issues_iff`: every problem of the report is found, and every problem that is
  found is in the report, at its own place.
* `Executable.violates_iff`: the codes of the errors.
* `Executable.validate_exact`: an executable passes if and only if it is whole. Warnings do not
  count.
* `warned_iff`: when the use count of an instruction is warned of.
-/

namespace BlockIr

/-! ## Names inside values -/

mutual

/-- A value whose data names an instruction. -/
inductive Value.Names (id : InstrId) : Value → Prop where
  | static {data : Data} : Data.Names id data → Value.Names id (.static data)

/-- Data that names an instruction, at any depth. -/
inductive Data.Names (id : InstrId) : Data → Prop where
  | receiver {symbol : String} : Data.Names id (.boundFn symbol id)
  | pointee {value : Value} : Value.Names id value → Data.Names id (.pointer value)
  | payload {value : Value} : Value.Names id value → Data.Names id (.present value)
  | element {values : List Value} {value : Value} :
    value ∈ values → Value.Names id value → Data.Names id (.array values)

end

section Names

variable {id : InstrId}

mutual

theorem Value.Names.mem_references : ∀ {value : Value}, value.Names id → id ∈ value.references
  | _, .static h => by
    rw [Value.references]
    exact h.mem_references

theorem Data.Names.mem_references : ∀ {data : Data}, data.Names id → id ∈ data.references
  | _, .receiver => by
    rw [Data.references]
    exact List.mem_singleton_self id
  | _, .pointee h => by
    rw [Data.references]
    exact h.mem_references
  | _, .payload h => by
    rw [Data.references]
    exact h.mem_references
  | _, .element hmem h => by
    rw [Data.references, Value.referencesOfAll_eq_flatMap, List.mem_flatMap]
    exact ⟨_, hmem, h.mem_references⟩

end

mutual

theorem Value.names_of_mem : ∀ {value : Value}, id ∈ value.references → value.Names id
  | .static _, h => by
    rw [Value.references] at h
    exact .static (Data.names_of_mem h)
  | .runtime, h | .undef, h | .zeroes, h | .unrecognised _, h => by
    simp [Value.references] at h

theorem Data.names_of_mem : ∀ {data : Data}, id ∈ data.references → data.Names id
  | .boundFn _ _, h => by
    rw [Data.references, List.mem_singleton] at h
    subst h
    exact .receiver
  | .pointer _, h => by
    rw [Data.references] at h
    exact .pointee (Value.names_of_mem h)
  | .present _, h => by
    rw [Data.references] at h
    exact .payload (Value.names_of_mem h)
  | .array _, h => by
    rw [Data.references] at h
    obtain ⟨value, hmem, h⟩ := Value.names_of_mem_all h
    exact .element hmem h
  | .void, h | .int _, h | .float _, h | .bool _, h | .type _, h | .fn _, h | .scope _ _, h
  | .absent, h | .namespacePath _, h | .aggregate, h | .pureError, h | .unrecognised _, h => by
    simp [Data.references] at h

theorem Value.names_of_mem_all : ∀ {values : List Value},
    id ∈ Value.referencesOfAll values → ∃ value ∈ values, value.Names id
  | [], h => by
    rw [Value.referencesOfAll] at h
    cases h
  | value :: rest, h => by
    rw [Value.referencesOfAll, List.mem_append] at h
    rcases h with h | h
    · exact ⟨value, List.mem_cons_self, Value.names_of_mem h⟩
    · obtain ⟨value', hmem, h⟩ := Value.names_of_mem_all h
      exact ⟨value', List.mem_cons_of_mem _ hmem, h⟩

end

theorem Value.mem_references_iff {value : Value} : id ∈ value.references ↔ value.Names id :=
  ⟨Value.names_of_mem, Value.Names.mem_references⟩

end Names

namespace Executable

/-! ## Problems -/

/-- What the blocks list, block by block, one entry for every listing. -/
def listings (e : Executable) : List InstrId := e.blocks.values.flatMap Block.instructions

/-- Where an executable is at fault. -/
inductive Faults (e : Executable) : Issue → Prop where
  | duplicateBlock {before after : List (BlockId × Block)} {key : BlockId} {b : Block} :
    e.blocks.entries = before ++ (key, b) :: after → b.id ∈ before.map (fun entry => entry.2.id) →
    Faults e (.duplicateBlock b.label b.id)
  | misplacedBlock {key : BlockId} {b : Block} : (key, b) ∈ e.blocks.entries → key ≠ b.id →
    Faults e (.misplacedBlock b.label key b.id)
  | unknownListed {b : Block} {id : InstrId} : b ∈ e.blocks.values → id ∈ b.instructions →
    id ∉ e.instructions.keys → Faults e (.unknownListed b.label id)
  | orphan {key : InstrId} : key ∈ e.instructions.keys → e.listings.count key = 0 →
    Faults e (.orphan key)
  | shared {key : InstrId} : key ∈ e.instructions.keys → 1 < e.listings.count key →
    Faults e (.shared key ((e.owners key).map e.ownerText))
  | misplacedInstruction {key : InstrId} {i : Instruction} : (key, i) ∈ e.instructions.entries →
    key ≠ i.id → Faults e (.misplacedInstruction key i.id)
  | missingOperand {key operand : InstrId} {i : Instruction} :
    (key, i) ∈ e.instructions.entries → operand ∈ i.operands → operand ∉ e.instructions.keys →
    Faults e (.missingOperand key operand)
  | missingReference {key reference : InstrId} {i : Instruction} :
    (key, i) ∈ e.instructions.entries → i.value.Names reference →
    reference ∉ e.instructions.keys → Faults e (.missingReference key reference)
  | missingTarget {key : InstrId} {target : BlockId} {i : Instruction} :
    (key, i) ∈ e.instructions.entries → target ∈ i.targets → target ∉ e.blocks.keys →
    Faults e (.missingTarget key target)
  | emptyPhi {key : InstrId} {i : Instruction} : (key, i) ∈ e.instructions.entries →
    i.operation = .phi [] → Faults e (.emptyPhi key)

/-- Where an executable is doubtful. -/
inductive Doubts (e : Executable) : Issue → Prop where
  | emptyBlock {b : Block} : b ∈ e.blocks.values → b.instructions = [] →
    Doubts e (.emptyBlock b.label)
  | unterminated {b : Block} {last : InstrId} {i : Instruction} : b ∈ e.blocks.values →
    b.instructions.getLast? = some last → e.instructions.find? last = some i →
    i.isTerminator = false → Doubts e (.unterminated b.label i.operation.kindWord)
  | miscounted {key : InstrId} {i : Instruction} : (key, i) ∈ e.instructions.entries →
    i.hasSideEffects = false → i.refCount ≠ e.useCount key →
    Doubts e (.miscounted key i.refCount (e.useCount key))

variable {e : Executable} {issue : Issue}

theorem Faults.severity (h : e.Faults issue) : issue.severity = .error := by
  cases h <;> rfl

theorem Doubts.severity (h : e.Doubts issue) : issue.severity = .warning := by
  cases h <;> rfl

/-! ## What is looked at -/

theorem hasInstruction_eq_false {id : InstrId} :
    e.hasInstruction id = false ↔ id ∉ e.instructions.keys :=
  Table.contains_eq_false_iff

theorem hasBlock_eq_false {id : BlockId} : e.hasBlock id = false ↔ id ∉ e.blocks.keys :=
  Table.contains_eq_false_iff

/-- The ids of a list that are absent are reported, one by one. -/
theorem mem_absent {ids : List Int} {present : Int → Bool} {report : Int → Issue} :
    issue ∈ (ids.filter fun id => !present id).map report ↔
      ∃ id ∈ ids, present id = false ∧ issue = report id := by
  simp only [List.mem_map, List.mem_filter, Bool.not_eq_true', and_assoc, @eq_comm _ issue]

/-- An instruction has an owner for every listing. -/
theorem length_owners (key : InstrId) : (e.owners key).length = e.listings.count key := by
  rw [owners, listings, List.length_flatMap, List.count_flatMap]
  congr 1
  apply List.map_congr_left
  intro b _
  rw [List.length_map, Function.comp_apply, List.count_eq_countP, List.countP_eq_length_filter]
  rfl

theorem mem_endIssues {b : Block} :
    issue ∈ e.endIssues b ↔
      (b.instructions = [] ∧ issue = .emptyBlock b.label) ∨
      ∃ last i, b.instructions.getLast? = some last ∧ e.instructions.find? last = some i ∧
        i.isTerminator = false ∧ issue = .unterminated b.label i.operation.kindWord := by
  unfold endIssues
  cases hlast : b.instructions.getLast? with
  | none => simp [List.getLast?_eq_none_iff.mp hlast]
  | some last =>
    have hne : b.instructions ≠ [] := by
      intro hnil
      rw [hnil] at hlast
      cases hlast
    cases hi : e.instructions.find? last with
    | none => simp [hne, hi]
    | some i => cases hend : i.isTerminator <;> simp [hne, hi, hend]

theorem mem_blockIssues {earlier : List BlockId} {key : BlockId} {b : Block} :
    issue ∈ e.blockIssues earlier key b ↔
      (b.id ∈ earlier ∧ issue = .duplicateBlock b.label b.id) ∨
      (key ≠ b.id ∧ issue = .misplacedBlock b.label key b.id) ∨
      (∃ id ∈ b.instructions, id ∉ e.instructions.keys ∧ issue = .unknownListed b.label id) ∨
      issue ∈ e.endIssues b := by
  simp only [blockIssues, List.mem_append, mem_absent, hasInstruction_eq_false,
    List.mem_ite_nil_right, List.mem_singleton, or_assoc]

/-- A block is looked at after the blocks before it. -/
theorem mem_blocksIssues {earlier : List BlockId} {entries : List (BlockId × Block)} :
    issue ∈ e.blocksIssues earlier entries ↔
      ∃ before key b after, entries = before ++ (key, b) :: after ∧
        issue ∈ e.blockIssues ((before.map fun entry => entry.2.id).reverse ++ earlier) key b := by
  induction entries generalizing earlier with
  | nil => simp [blocksIssues]
  | cons entry rest ih =>
    obtain ⟨key, b⟩ := entry
    rw [blocksIssues, List.mem_append, ih]
    constructor
    · rintro (h | ⟨before, key', b', after, rfl, h⟩)
      · exact ⟨[], key, b, rest, rfl, h⟩
      · refine ⟨(key, b) :: before, key', b', after, rfl, ?_⟩
        rw [List.map_cons, List.reverse_cons, List.append_assoc]
        exact h
    · rintro ⟨before, key', b', after, heq, h⟩
      cases before with
      | nil =>
        cases heq
        exact .inl h
      | cons first before =>
        cases heq
        rw [List.map_cons, List.reverse_cons, List.append_assoc] at h
        exact .inr ⟨before, key', b', after, rfl, h⟩

theorem mem_ownerIssues {key : InstrId} :
    issue ∈ e.ownerIssues key ↔
      (e.listings.count key = 0 ∧ issue = .orphan key) ∨
      (1 < e.listings.count key ∧ issue = .shared key ((e.owners key).map e.ownerText)) := by
  rw [← length_owners]
  unfold ownerIssues
  split
  · rename_i hnone
    simp [hnone]
  · rename_i hone
    simp [hone]
  · rename_i hnone hone
    have hmany : 1 < (e.owners key).length := by
      match howners : e.owners key with
      | [] => exact absurd howners hnone
      | [owner] => exact absurd howners (hone owner)
      | _ :: _ :: _ => simp
    have hsome : (e.owners key).length ≠ 0 := by omega
    simp [hmany, hsome]

theorem mem_instructionIssues {key : InstrId} {i : Instruction} :
    issue ∈ e.instructionIssues key i ↔
      (key ≠ i.id ∧ issue = .misplacedInstruction key i.id) ∨
      (∃ id ∈ i.operands, id ∉ e.instructions.keys ∧ issue = .missingOperand key id) ∨
      (∃ id ∈ i.references, id ∉ e.instructions.keys ∧ issue = .missingReference key id) ∨
      (∃ id ∈ i.targets, id ∉ e.blocks.keys ∧ issue = .missingTarget key id) ∨
      (i.operation = .phi [] ∧ issue = .emptyPhi key) := by
  simp only [instructionIssues, List.mem_append, mem_absent, hasInstruction_eq_false,
    hasBlock_eq_false, List.mem_ite_nil_right, List.mem_singleton, or_assoc]
  split
  · rename_i hphi
    simp only [hphi, List.mem_singleton, true_and]
  · rename_i hphi
    have hphi : i.operation ≠ .phi [] := hphi
    simp only [hphi, List.not_mem_nil, false_and]

theorem mem_countIssues {key : InstrId} {i : Instruction} :
    issue ∈ e.countIssues key i ↔
      (i.hasSideEffects = false ∧ i.refCount ≠ e.useCount key) ∧
        issue = .miscounted key i.refCount (e.useCount key) := by
  simp only [countIssues, List.mem_ite_nil_right, List.mem_singleton, Bool.and_eq_true,
    Bool.not_eq_true', bne_iff_ne]

/-- A problem is one of a block, of the owners of an instruction, of the instruction itself, or
of its use count. -/
theorem mem_issues :
    issue ∈ e.issues ↔
      (∃ before key b after, e.blocks.entries = before ++ (key, b) :: after ∧
        issue ∈ e.blockIssues (before.map fun entry => entry.2.id).reverse key b) ∨
      (∃ key ∈ e.instructions.keys, issue ∈ e.ownerIssues key) ∨
      (∃ key i, (key, i) ∈ e.instructions.entries ∧ issue ∈ e.instructionIssues key i) ∨
      ∃ key i, (key, i) ∈ e.instructions.entries ∧ issue ∈ e.countIssues key i := by
  simp only [issues, List.mem_append, List.mem_flatMap, mem_blocksIssues, List.append_nil,
    Prod.exists, or_assoc]

/-! ## Every problem is found, and every find is reported -/

theorem found_of_mem_blockIssues {before after : List (BlockId × Block)} {key : BlockId}
    {b : Block} (hentries : e.blocks.entries = before ++ (key, b) :: after)
    (h : issue ∈ e.blockIssues (before.map fun entry => entry.2.id).reverse key b) :
    e.Faults issue ∨ e.Doubts issue := by
  have hentry : (key, b) ∈ e.blocks.entries := by
    rw [hentries]
    exact List.mem_append_right _ List.mem_cons_self
  have hb : b ∈ e.blocks.values := Table.mem_values_iff.mpr ⟨key, hentry⟩
  rw [mem_blockIssues, List.mem_reverse, mem_endIssues] at h
  rcases h with ⟨hid, rfl⟩ | ⟨hkey, rfl⟩ | ⟨id, hid, habsent, rfl⟩ | ⟨hnil, rfl⟩ |
    ⟨last, i, hlast, hi, hend, rfl⟩
  · exact .inl (.duplicateBlock hentries hid)
  · exact .inl (.misplacedBlock hentry hkey)
  · exact .inl (.unknownListed hb hid habsent)
  · exact .inr (.emptyBlock hb hnil)
  · exact .inr (.unterminated hb hlast hi hend)

theorem found_of_mem_issues (h : issue ∈ e.issues) : e.Faults issue ∨ e.Doubts issue := by
  rcases mem_issues.mp h with ⟨before, key, b, after, hentries, h⟩ | ⟨key, hkey, h⟩ |
    ⟨key, i, hi, h⟩ | ⟨key, i, hi, h⟩
  · exact found_of_mem_blockIssues hentries h
  · rcases mem_ownerIssues.mp h with ⟨hnone, rfl⟩ | ⟨hmany, rfl⟩
    · exact .inl (.orphan hkey hnone)
    · exact .inl (.shared hkey hmany)
  · rcases mem_instructionIssues.mp h with ⟨hkey, rfl⟩ | ⟨id, hid, habsent, rfl⟩ |
      ⟨id, hid, habsent, rfl⟩ | ⟨id, hid, habsent, rfl⟩ | ⟨hphi, rfl⟩
    · exact .inl (.misplacedInstruction hi hkey)
    · exact .inl (.missingOperand hi hid habsent)
    · exact .inl (.missingReference hi (Value.mem_references_iff.mp hid) habsent)
    · exact .inl (.missingTarget hi hid habsent)
    · exact .inl (.emptyPhi hi hphi)
  · obtain ⟨⟨heffects, hne⟩, rfl⟩ := mem_countIssues.mp h
    exact .inr (.miscounted hi heffects hne)

theorem mem_issues_of_block {key : BlockId} {b : Block} (hb : (key, b) ∈ e.blocks.entries)
    (h : ∀ earlier, issue ∈ e.blockIssues earlier key b) : issue ∈ e.issues := by
  obtain ⟨before, after, hentries⟩ := List.append_of_mem hb
  exact mem_issues.mpr (.inl ⟨before, key, b, after, hentries, h _⟩)

theorem mem_issues_of_owner {key : InstrId} (hkey : key ∈ e.instructions.keys)
    (h : issue ∈ e.ownerIssues key) : issue ∈ e.issues :=
  mem_issues.mpr (.inr (.inl ⟨key, hkey, h⟩))

theorem mem_issues_of_instruction {key : InstrId} {i : Instruction}
    (hi : (key, i) ∈ e.instructions.entries) (h : issue ∈ e.instructionIssues key i) :
    issue ∈ e.issues :=
  mem_issues.mpr (.inr (.inr (.inl ⟨key, i, hi, h⟩)))

theorem Faults.mem_issues (h : e.Faults issue) : issue ∈ e.issues := by
  cases h with
  | duplicateBlock hentries hid =>
    refine Executable.mem_issues.mpr (.inl ⟨_, _, _, _, hentries, ?_⟩)
    exact mem_blockIssues.mpr (.inl ⟨List.mem_reverse.mpr hid, rfl⟩)
  | misplacedBlock hb hkey =>
    exact mem_issues_of_block hb fun _ => mem_blockIssues.mpr (.inr (.inl ⟨hkey, rfl⟩))
  | unknownListed hb hid habsent =>
    obtain ⟨key, hb⟩ := Table.mem_values_iff.mp hb
    refine mem_issues_of_block hb fun _ => mem_blockIssues.mpr (.inr (.inr (.inl ?_)))
    exact ⟨_, hid, habsent, rfl⟩
  | orphan hkey hnone => exact mem_issues_of_owner hkey (mem_ownerIssues.mpr (.inl ⟨hnone, rfl⟩))
  | shared hkey hmany => exact mem_issues_of_owner hkey (mem_ownerIssues.mpr (.inr ⟨hmany, rfl⟩))
  | misplacedInstruction hi hkey =>
    exact mem_issues_of_instruction hi (mem_instructionIssues.mpr (.inl ⟨hkey, rfl⟩))
  | missingOperand hi hid habsent =>
    refine mem_issues_of_instruction hi (mem_instructionIssues.mpr (.inr (.inl ?_)))
    exact ⟨_, hid, habsent, rfl⟩
  | missingReference hi hid habsent =>
    refine mem_issues_of_instruction hi (mem_instructionIssues.mpr (.inr (.inr (.inl ?_))))
    exact ⟨_, Value.mem_references_iff.mpr hid, habsent, rfl⟩
  | missingTarget hi hid habsent =>
    refine mem_issues_of_instruction hi (mem_instructionIssues.mpr (.inr (.inr (.inr (.inl ?_)))))
    exact ⟨_, hid, habsent, rfl⟩
  | emptyPhi hi hphi =>
    refine mem_issues_of_instruction hi (mem_instructionIssues.mpr (.inr (.inr (.inr (.inr ?_)))))
    exact ⟨hphi, rfl⟩

theorem Doubts.mem_issues (h : e.Doubts issue) : issue ∈ e.issues := by
  have hend {b : Block} (hb : b ∈ e.blocks.values) (h : issue ∈ e.endIssues b) :
      issue ∈ e.issues := by
    obtain ⟨key, hb⟩ := Table.mem_values_iff.mp hb
    exact mem_issues_of_block hb fun _ => mem_blockIssues.mpr (.inr (.inr (.inr h)))
  cases h with
  | emptyBlock hb hnil => exact hend hb (mem_endIssues.mpr (.inl ⟨hnil, rfl⟩))
  | unterminated hb hlast hi hterminator =>
    exact hend hb (mem_endIssues.mpr (.inr ⟨_, _, hlast, hi, hterminator, rfl⟩))
  | miscounted hi heffects hne =>
    refine Executable.mem_issues.mpr (.inr (.inr (.inr ⟨_, _, hi, ?_⟩)))
    exact mem_countIssues.mpr ⟨⟨heffects, hne⟩, rfl⟩

/-- The report holds every problem that is found, and no other. -/
theorem mem_issues_iff : issue ∈ e.issues ↔ e.Faults issue ∨ e.Doubts issue :=
  ⟨found_of_mem_issues, fun h => h.elim Faults.mem_issues Doubts.mem_issues⟩

/-! ## The outcome -/

theorem messages_validate : e.validate.messages = e.issues := by
  unfold validate
  split <;> rfl

theorem mem_ofSeverity_validate {severity : Severity} :
    issue ∈ e.validate.ofSeverity severity ↔ issue ∈ e.issues ∧ issue.severity = severity := by
  rw [Outcome.ofSeverity, messages_validate, List.mem_filter, beq_iff_eq]
  rfl

theorem mem_errors_validate : issue ∈ e.validate.errors ↔ e.Faults issue := by
  rw [Outcome.errors, mem_ofSeverity_validate, mem_issues_iff]
  constructor
  · rintro ⟨h | h, hseverity⟩
    · exact h
    · rw [h.severity] at hseverity
      cases hseverity
  · intro h
    exact ⟨.inl h, h.severity⟩

theorem mem_warnings_validate : issue ∈ e.validate.warnings ↔ e.Doubts issue := by
  rw [Outcome.warnings, mem_ofSeverity_validate, mem_issues_iff]
  constructor
  · rintro ⟨h | h, hseverity⟩
    · rw [h.severity] at hseverity
      cases hseverity
    · exact h
  · intro h
    exact ⟨.inr h, h.severity⟩

/-- An executable is given back as it is, unless the report holds an error. -/
theorem value_validate :
    e.validate.value = if e.validate.errors = [] then some e else none := by
  have herrors : e.validate.errors = [] ↔
      e.issues.any (fun issue => issue.severity == .error) = false := by
    rw [Outcome.errors, Outcome.ofSeverity, messages_validate, List.filter_eq_nil_iff,
      List.any_eq_false]
    rfl
  by_cases hany : e.issues.any (fun issue => issue.severity == .error) = true
  · rw [if_neg (by rw [herrors, hany]; decide), validate, if_pos hany]
    rfl
  · rw [if_pos (herrors.mpr (Bool.eq_false_iff.mpr hany)), validate, if_neg hany]
    rfl

/-! ## Codes -/

/-- What is wrong with an executable when an error of a code is reported. -/
inductive Violates (e : Executable) : String → Prop where
  | duplicateBlock {key key' : BlockId} {b b' : Block} : (key, b) ∈ e.blocks.entries →
    (key', b') ∈ e.blocks.entries → key ≠ key' → b.id = b'.id → Violates e "IRV001"
  | misplacedBlock {key : BlockId} {b : Block} : (key, b) ∈ e.blocks.entries → key ≠ b.id →
    Violates e "IRV002"
  | misplacedInstruction {key : InstrId} {i : Instruction} : (key, i) ∈ e.instructions.entries →
    key ≠ i.id → Violates e "IRV002"
  | orphan {key : InstrId} : key ∈ e.instructions.keys → e.listings.count key = 0 →
    Violates e "IRV003"
  | shared {key : InstrId} : key ∈ e.instructions.keys → 1 < e.listings.count key →
    Violates e "IRV004"
  | unknownListed {b : Block} {id : InstrId} : b ∈ e.blocks.values → id ∈ b.instructions →
    id ∉ e.instructions.keys → Violates e "IRV005"
  | missingOperand {i : Instruction} {id : InstrId} : i ∈ e.instructions.values →
    id ∈ i.operands → id ∉ e.instructions.keys → Violates e "IRV006"
  | missingReference {i : Instruction} {id : InstrId} : i ∈ e.instructions.values →
    i.value.Names id → id ∉ e.instructions.keys → Violates e "IRV006"
  | missingTarget {i : Instruction} {id : BlockId} : i ∈ e.instructions.values →
    id ∈ i.targets → id ∉ e.blocks.keys → Violates e "IRV007"
  | emptyPhi {i : Instruction} : i ∈ e.instructions.values → i.operation = .phi [] →
    Violates e "IRV008"

theorem Faults.violates (h : e.Faults issue) : e.Violates issue.code := by
  cases h with
  | @duplicateBlock before after key b hentries hid =>
    obtain ⟨⟨key', b'⟩, hearlier, heq⟩ := List.mem_map.mp hid
    have hb : (key, b) ∈ e.blocks.entries := by
      rw [hentries]
      exact List.mem_append_right _ List.mem_cons_self
    have hb' : (key', b') ∈ e.blocks.entries := by
      rw [hentries]
      exact List.mem_append_left _ hearlier
    have hkeys := e.blocks.nodup
    rw [hentries, List.map_append, List.map_cons, List.nodup_append] at hkeys
    have hkey : key' ≠ key := hkeys.2.2 _ (List.mem_map_of_mem hearlier) _ List.mem_cons_self
    exact .duplicateBlock hb' hb hkey heq
  | misplacedBlock hb hkey => exact .misplacedBlock hb hkey
  | unknownListed hb hid habsent => exact .unknownListed hb hid habsent
  | orphan hkey hnone => exact .orphan hkey hnone
  | shared hkey hmany => exact .shared hkey hmany
  | misplacedInstruction hi hkey => exact .misplacedInstruction hi hkey
  | missingOperand hi hid habsent =>
    exact .missingOperand (Table.mem_values_iff.mpr ⟨_, hi⟩) hid habsent
  | missingReference hi hid habsent =>
    exact .missingReference (Table.mem_values_iff.mpr ⟨_, hi⟩) hid habsent
  | missingTarget hi hid habsent =>
    exact .missingTarget (Table.mem_values_iff.mpr ⟨_, hi⟩) hid habsent
  | emptyPhi hi hphi => exact .emptyPhi (Table.mem_values_iff.mpr ⟨_, hi⟩) hphi

theorem Violates.exists_fault {code : String} (h : e.Violates code) :
    ∃ issue, e.Faults issue ∧ issue.code = code := by
  cases h with
  | @duplicateBlock key key' b b' hb hb' hkey hid =>
    -- The block that stands later is the one that is reported.
    obtain ⟨before, after, hentries⟩ := List.append_of_mem hb
    rw [hentries, List.mem_append, List.mem_cons] at hb'
    rcases hb' with hb' | heq | hb'
    · exact ⟨_, .duplicateBlock hentries (hid ▸ List.mem_map_of_mem hb'), rfl⟩
    · cases heq
      exact absurd rfl hkey
    · obtain ⟨between, after, rfl⟩ := List.append_of_mem hb'
      rw [← List.cons_append, ← List.append_assoc] at hentries
      refine ⟨_, .duplicateBlock hentries ?_, rfl⟩
      rw [← hid]
      exact List.mem_map_of_mem (List.mem_append_right before List.mem_cons_self)
  | misplacedBlock hb hkey => exact ⟨_, .misplacedBlock hb hkey, rfl⟩
  | misplacedInstruction hi hkey => exact ⟨_, .misplacedInstruction hi hkey, rfl⟩
  | orphan hkey hnone => exact ⟨_, .orphan hkey hnone, rfl⟩
  | shared hkey hmany => exact ⟨_, .shared hkey hmany, rfl⟩
  | unknownListed hb hid habsent => exact ⟨_, .unknownListed hb hid habsent, rfl⟩
  | missingOperand hi hid habsent =>
    obtain ⟨_, hi⟩ := Table.mem_values_iff.mp hi
    exact ⟨_, .missingOperand hi hid habsent, rfl⟩
  | missingReference hi hid habsent =>
    obtain ⟨_, hi⟩ := Table.mem_values_iff.mp hi
    exact ⟨_, .missingReference hi hid habsent, rfl⟩
  | missingTarget hi hid habsent =>
    obtain ⟨_, hi⟩ := Table.mem_values_iff.mp hi
    exact ⟨_, .missingTarget hi hid habsent, rfl⟩
  | emptyPhi hi hphi =>
    obtain ⟨_, hi⟩ := Table.mem_values_iff.mp hi
    exact ⟨_, .emptyPhi hi hphi, rfl⟩

theorem violates_iff {code : String} :
    e.Violates code ↔ ∃ issue ∈ e.validate.errors, (message issue).code = code := by
  simp only [mem_errors_validate]
  constructor
  · exact Violates.exists_fault
  · rintro ⟨issue, hfault, rfl⟩
    exact hfault.violates

/-! ## Whole executables -/

/-- Entries stand under their own ids, blocks own the instructions, and every id leads to an
entry. -/
structure Whole (e : Executable) : Prop where
  blockIds : ∀ key b, (key, b) ∈ e.blocks.entries → key = b.id
  instructionIds : ∀ key i, (key, i) ∈ e.instructions.entries → key = i.id
  listed : ∀ b ∈ e.blocks.values, ∀ id ∈ b.instructions, id ∈ e.instructions.keys
  once : ∀ key ∈ e.instructions.keys, e.listings.count key = 1
  operands : ∀ i ∈ e.instructions.values, ∀ id ∈ i.operands, id ∈ e.instructions.keys
  names : ∀ i ∈ e.instructions.values, ∀ id, i.value.Names id → id ∈ e.instructions.keys
  targets : ∀ i ∈ e.instructions.values, ∀ id ∈ i.targets, id ∈ e.blocks.keys
  phis : ∀ i ∈ e.instructions.values, i.operation ≠ .phi []

theorem Whole.not_violates (he : e.Whole) {code : String} : ¬ e.Violates code := by
  intro h
  cases h with
  | duplicateBlock hb hb' hkey hid =>
    exact hkey ((he.blockIds _ _ hb).trans (hid.trans (he.blockIds _ _ hb').symm))
  | misplacedBlock hb hkey => exact hkey (he.blockIds _ _ hb)
  | misplacedInstruction hi hkey => exact hkey (he.instructionIds _ _ hi)
  | orphan hkey hnone =>
    have hone := he.once _ hkey
    omega
  | shared hkey hmany =>
    have hone := he.once _ hkey
    omega
  | unknownListed hb hid habsent => exact habsent (he.listed _ hb _ hid)
  | missingOperand hi hid habsent => exact habsent (he.operands _ hi _ hid)
  | missingReference hi hid habsent => exact habsent (he.names _ hi _ hid)
  | missingTarget hi hid habsent => exact habsent (he.targets _ hi _ hid)
  | emptyPhi hi hphi => exact he.phis _ hi hphi

theorem whole_of_not_violates (h : ∀ code, ¬ e.Violates code) : e.Whole := by
  constructor
  case blockIds =>
    intro key b hb
    by_contra hkey
    exact h _ (.misplacedBlock hb hkey)
  case instructionIds =>
    intro key i hi
    by_contra hkey
    exact h _ (.misplacedInstruction hi hkey)
  case listed =>
    intro b hb id hid
    by_contra habsent
    exact h _ (.unknownListed hb hid habsent)
  case once =>
    intro key hkey
    have hsome : ¬ e.listings.count key = 0 := fun hnone => h _ (.orphan hkey hnone)
    have hone : ¬ 1 < e.listings.count key := fun hmany => h _ (.shared hkey hmany)
    omega
  case operands =>
    intro i hi id hid
    by_contra habsent
    exact h _ (.missingOperand hi hid habsent)
  case names =>
    intro i hi id hid
    by_contra habsent
    exact h _ (.missingReference hi hid habsent)
  case targets =>
    intro i hi id hid
    by_contra habsent
    exact h _ (.missingTarget hi hid habsent)
  case phis =>
    intro i hi hphi
    exact h _ (.emptyPhi hi hphi)

theorem errors_validate_eq_nil_iff : e.validate.errors = [] ↔ e.Whole := by
  constructor
  · intro hnone
    apply whole_of_not_violates
    intro code hcode
    obtain ⟨issue, hmem, -⟩ := violates_iff.mp hcode
    rw [hnone] at hmem
    cases hmem
  · intro he
    rw [List.eq_nil_iff_forall_not_mem]
    intro issue hmem
    exact he.not_violates (mem_errors_validate.mp hmem).violates

theorem value_validate_iff : e.validate.value = some e ↔ e.Whole := by
  rw [value_validate, ← errors_validate_eq_nil_iff]
  split <;> simp [*]

theorem validate_success_iff : e.validate.success = true ↔ e.Whole := by
  rw [Outcome.success, value_validate, ← errors_validate_eq_nil_iff]
  split <;> simp [*]

/-- An executable passes the validation if and only if it is whole, that is, if and only if the
report holds no error; it is then given back as it is. Every error and every warning is in the
report if and only if it is found at its place, and an error of a code is if and only if the
executable violates what the code stands for. -/
theorem validate_exact (e : Executable) :
    (e.validate.success = true ↔ e.Whole) ∧ (e.validate.value = some e ↔ e.Whole) ∧
    (e.validate.errors = [] ↔ e.Whole) ∧
    (∀ code, (∃ issue ∈ e.validate.errors, (message issue).code = code) ↔ e.Violates code) ∧
    (∀ issue, issue ∈ e.validate.errors ↔ e.Faults issue) ∧
    ∀ issue, issue ∈ e.validate.warnings ↔ e.Doubts issue :=
  ⟨validate_success_iff, value_validate_iff, errors_validate_eq_nil_iff,
    fun _ => violates_iff.symm, fun _ => mem_errors_validate, fun _ => mem_warnings_validate⟩

end Executable

/-! ## Warnings of use counts -/

/-- The validation warns of a use count exactly where it differs from the number of slots. -/
theorem miscounted_mem_issues {e : Executable} {key : InstrId} {given : Int} {counted : Nat} :
    .miscounted key given counted ∈ e.issues ↔
      ∃ i, (key, i) ∈ e.instructions.entries ∧ i.hasSideEffects = false ∧
        i.refCount ≠ e.useCount key ∧ given = i.refCount ∧ counted = e.useCount key := by
  rw [Executable.mem_issues_iff]
  constructor
  · rintro (h | h)
    · cases h
    · cases h with
      | miscounted hmem heffects hne => exact ⟨_, hmem, heffects, hne, rfl, rfl⟩
  · rintro ⟨i, hmem, heffects, hne, rfl, rfl⟩
    exact .inr (.miscounted hmem heffects hne)

theorem code_eq_miscounted {issue : Issue} (h : issue.code = "IRV101") :
    ∃ key given counted, issue = .miscounted key given counted := by
  cases issue with
  | miscounted key given counted => exact ⟨key, given, counted, rfl⟩
  | _ => simp [Issue.code] at h

/-- A warning of a use count names the instruction that is stored under its key. -/
theorem warned_iff {e : Executable} {key : InstrId} {i : Instruction}
    (hi : (key, i) ∈ e.instructions.entries) :
    (∃ issue ∈ e.validate.messages, (message issue).code = "IRV101" ∧
        (message issue).location = some (DumpError.idText key)) ↔
      i.refCount ≠ e.useCount key ∧ i.hasSideEffects = false := by
  rw [Executable.messages_validate]
  constructor
  · rintro ⟨issue, hissue, hcode, hlocation⟩
    obtain ⟨key', given, counted, rfl⟩ := code_eq_miscounted hcode
    obtain ⟨i', hi', heffects, hne, -, -⟩ := miscounted_mem_issues.mp hissue
    have hkey : key' = key := DumpError.idText_inj.mp (Option.some.inj hlocation)
    subst hkey
    have hsame : i' = i := Option.some.inj
      ((Table.find?_eq_some_iff.mpr hi').symm.trans (Table.find?_eq_some_iff.mpr hi))
    subst hsame
    exact ⟨hne, heffects⟩
  · rintro ⟨hne, heffects⟩
    exact ⟨_, miscounted_mem_issues.mpr ⟨i, hi, heffects, hne, rfl, rfl⟩, rfl, rfl⟩

end BlockIr
