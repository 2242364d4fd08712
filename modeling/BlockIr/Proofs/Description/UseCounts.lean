import BlockIr.Proofs.Description.Transcript

/-!
# Use counts of descriptions

A load counts the uses that an entry leaves out when every entry has been read, and a validation
counts them again when it looks at the executable. A counted use is an operand slot, wherever the
instruction that has it stands, itself included. Changing a use count changes no slot, so both
count the same, and a warning can only come from a use count that an entry gives itself.

* `Progress.useCount_executable`: what is counted while loading is counted afterwards.
* `useCounts_of_load`: where the use counts of an executable come from, and which ones are warned
  of.
-/

namespace BlockIr.Description

variable {types : TypeTable} {item : Node} {e : Executable}

/-- An entry gives a use count or leaves it out. -/
theorem readEntry_count {taken : InstrId → Bool} {entry : Entry}
    (h : readEntry types taken item = .ok entry) :
    ∃ countNode, item.field? "refCount" = .ok countNode ∧
      readUseCount countNode = .ok entry.instruction.refCount ∧
      entry.counted = countNode.isSome := by
  obtain ⟨_, -, h⟩ := bind_eq_ok.mp h
  obtain ⟨_, -, h⟩ := bind_eq_ok.mp h
  obtain ⟨_, -, h⟩ := bind_eq_ok.mp h
  obtain ⟨countNode, hfield, h⟩ := bind_eq_ok.mp h
  obtain ⟨_, -, h⟩ := bind_eq_ok.mp h
  obtain ⟨_, hcount, h⟩ := bind_eq_ok.mp h
  obtain ⟨_, -, h⟩ := bind_eq_ok.mp h
  obtain ⟨_, -, h⟩ := bind_eq_ok.mp h
  cases h
  exact ⟨countNode, hfield, hcount, rfl⟩

namespace Progress

/-- A use count that was filled in changes no operand slot. -/
theorem useCount_executable (p : Progress) (id : InstrId) :
    p.executable.useCount id = p.uses id := by
  have hoperands (entry : Entry) : (p.counted entry).operands = entry.instruction.operands := by
    obtain ⟨n, hn⟩ := p.counted_eq entry
    rw [hn]
    rfl
  have hslots : p.executable.operandSlots =
      p.entries.values.flatMap fun entry => entry.instruction.operands := by
    simp only [Executable.operandSlots, executable, Table.values, Table.mapValues, List.map_map,
      List.flatMap_map, Function.comp_apply, hoperands]
  rw [Executable.useCount, hslots, uses]

end Progress

/-- How the use count of an instruction comes from its entry, in an executable. -/
structure CountedFrom (e : Executable) (item : Node) (entry : InstrId × Instruction) : Prop where
  key : item.id "id" = .ok entry.1
  own : entry.2.id = entry.1
  count :
    item.field? "refCount" = .ok none ∧ entry.2.refCount = e.useCount entry.1 ∨
      ∃ node, item.field? "refCount" = .ok (some node) ∧ node.index = .ok entry.2.refCount
  warned :
    (∃ issue ∈ e.validate.messages, (message issue).code = "IRV101" ∧
        (message issue).location = some (DumpError.idText entry.1)) ↔
      ∃ node given, item.field? "refCount" = .ok (some node) ∧ node.index = .ok given ∧
        given ≠ e.useCount entry.1 ∧ entry.2.hasSideEffects = false

/-- An entry that was read, and the instruction it has become. -/
theorem Progress.Reads.countedFrom {p : Progress} {entry : InstrId × Entry}
    (h : Progress.Reads types item entry) (hentry : entry ∈ p.entries.entries) :
    CountedFrom p.executable item (entry.1, p.counted entry.2) := by
  obtain ⟨key, entry⟩ := entry
  obtain ⟨hkey, hid, hreading⟩ := h
  dsimp only at hkey hid hreading
  subst hkey
  have hmem : (entry.instruction.id, p.counted entry) ∈ p.executable.instructions.entries :=
    List.mem_map.mpr ⟨_, hentry, rfl⟩
  have hown : (p.counted entry).id = entry.instruction.id := by
    obtain ⟨n, hn⟩ := p.counted_eq entry
    rw [hn]
  obtain ⟨countNode, hfield, hcount, hcounted⟩ := readEntry_count hreading
  have hcount : item.field? "refCount" = .ok none ∧
        (p.counted entry).refCount = p.executable.useCount entry.instruction.id ∨
      ∃ node, item.field? "refCount" = .ok (some node) ∧
        node.index = .ok (p.counted entry).refCount := by
    rw [p.useCount_executable, Progress.counted, hcounted]
    cases countNode with
    | none => exact .inl ⟨hfield, rfl⟩
    | some node => exact .inr ⟨node, hfield, hcount⟩
  refine ⟨hid, hown, hcount, ?_⟩
  rw [warned_iff hmem]
  constructor
  · rintro ⟨hne, heffects⟩
    rcases hcount with ⟨-, hexact⟩ | ⟨node, hfield, hindex⟩
    · exact absurd hexact hne
    · exact ⟨node, _, hfield, hindex, hne, heffects⟩
  · rintro ⟨node, given, hfield, hindex, hne, heffects⟩
    rcases hcount with ⟨hnone, -⟩ | ⟨node', hfield', hindex'⟩
    · cases hnone.symm.trans hfield
    · cases hfield.symm.trans hfield'
      cases hindex.symm.trans hindex'
      exact ⟨hne, heffects⟩

/-- The operand slots of a description are those of the instructions that its blocks list. -/
theorem Described.operandSlots (he : Described e) :
    e.operandSlots = (e.listings.filterMap e.instructions.find?).flatMap Instruction.operands := by
  have harena : e.listings = e.instructions.keys := he.arena.symm
  rw [harena, Table.filterMap_find?_keys, Executable.operandSlots]

/-- Every instruction has the use count that its entry gives, or else the number of operand slots
of listed instructions that name it. A validation warns of exactly those use counts that an entry
gives differently for an instruction without side effects. -/
theorem useCounts_of_load {doc : Doc} (h : (load doc).value = some e) :
    ∃ ss, sections (.root doc) = .ok ss ∧
      List.Forall₂ (CountedFrom e) (ss.flatMap Section.items) e.instructions.entries ∧
      ∀ id, e.useCount id =
        ((e.listings.filterMap e.instructions.find?).flatMap Instruction.operands).count id := by
  have he := described_of_load h
  obtain ⟨ss, hss, hfollows, rfl⟩ := follows_of_load h
  refine ⟨ss, hss, List.forall₂_map_right_iff.mpr ?_, ?_⟩
  · obtain ⟨hlength, hreads⟩ := List.forall₂_iff_zip.mp hfollows.entries
    refine List.forall₂_iff_zip.mpr ⟨hlength, fun hpair => ?_⟩
    exact (hreads hpair).countedFrom (List.of_mem_zip hpair).2
  · intro id
    rw [Executable.useCount, he.operandSlots]

/-- A phi that names itself twice, and is named from a later block. -/
def selfUses : Doc :=
  .map
    [("blocks", .list
      [.map
        [("id", .int 0),
         ("instructions", .list
          [.map [("id", .int 0), ("kind", .text "phi"), ("incoming", .list
            [.map [("block", .int 0), ("value", .int 0)],
             .map [("block", .int 1), ("value", .int 0)]])],
           .map [("id", .int 1), ("kind", .text "load_ptr"), ("ptr", .int 2),
            ("refCount", .int 5)],
           .map [("id", .int 2), ("kind", .text "const"), ("type", .text "(bound fn)"),
            ("value", .map [("fn", .text "f"), ("firstArg", .int 0)]), ("refCount", .int 1)]])],
       .map
        [("id", .int 1),
         ("instructions", .list
          [.map [("id", .int 3), ("kind", .text "return"), ("operand", .int 0),
            ("refCount", .int 9)]])]])]

theorem useCounts_selfUses :
    ∃ e, (load selfUses).value = some e ∧ e.useCount 0 = 3 ∧
      e.validate.warnings.filter (fun issue => issue.code == "IRV101") = [.miscounted 1 5 0] ∧
      ∃ ss, sections (.root selfUses) = .ok ss ∧
        List.Forall₂ (CountedFrom e) (ss.flatMap Section.items) e.instructions.entries := by
  have hload : (load selfUses).value.isSome = true := by decide +kernel
  obtain ⟨e, he⟩ := Option.isSome_iff_exists.mp hload
  have hcounts : (load selfUses).value.map (fun e => (e.useCount 0,
      e.validate.warnings.filter (fun issue => issue.code == "IRV101"))) =
      some (3, [.miscounted 1 5 0]) := by decide +kernel
  simp only [he, Option.map_some, Option.some.injEq, Prod.mk.injEq] at hcounts
  obtain ⟨ss, hss, hcounted, -⟩ := useCounts_of_load he
  exact ⟨e, he, hcounts.1, hcounts.2, ss, hss, hcounted⟩

end BlockIr.Description
