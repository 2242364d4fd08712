import BlockIr.Dump.Line
import BlockIr.Proofs.Layout
import BlockIr.Proofs.Receivers

/-!
# What a line depends on

A line shows its own instruction, and of the rest of the executable only what its operands and
targets show: the id of a runtime operand, the type and the value of a known one and of the
instructions its value names, and the label of a target. Where two executables agree on these,
the line is the same in both, or has no text in both for the same reason.

* `Executable.Needs`: the instructions a line may look at.
* `Executable.operand_congr`: operands are shown alike where a set of instructions that is closed
  under receivers is.
* `Instruction.body_congr`: so the body is the same.
* `Executable.line_local`: so the line is, and it does not change with anything else.
-/

namespace BlockIr

/-- Instructions that look the same as operands. Of a runtime value only the id is shown. -/
structure Instruction.ShownAlike (i j : Instruction) : Prop where
  id : i.id = j.id
  inlined : i.isInlined = j.isInlined
  type : i.isInlined = true → i.type = j.type
  value : i.isInlined = true → i.value = j.value

/-- Blocks with the same label. -/
structure Block.NamedAlike (b c : Block) : Prop where
  id : b.id = c.id
  nameHint : b.nameHint = c.nameHint

namespace Executable

/-- What is stored under an id looks the same as an operand, or nothing is stored. -/
def ShowsAlike (e e' : Executable) (id : InstrId) : Prop :=
  Option.Rel Instruction.ShownAlike (e.instructions.find? id) (e'.instructions.find? id)

/-- What is stored under an id is named the same as a target, or nothing is stored. -/
def NamesAlike (e e' : Executable) (id : BlockId) : Prop :=
  Option.Rel Block.NamedAlike (e.blocks.find? id) (e'.blocks.find? id)

/-- The instructions a line may look at: its operands, for a constant the instructions its own
value names, and what the values of all of these name. -/
inductive Needs (e : Executable) (i : Instruction) : InstrId → Prop where
  | operand {id : InstrId} : id ∈ i.operands → Needs e i id
  | own {id : InstrId} : i.operation = .const → id ∈ i.references → Needs e i id
  | receiver {id r : InstrId} : Needs e i id → e.Receives id r → Needs e i r

/-- The executable with other instructions and blocks under the same keys. -/
def revised (e : Executable) (f : InstrId → Instruction → Instruction)
    (g : BlockId → Block → Block) : Executable where
  blocks := e.blocks.mapValues g
  instructions := e.instructions.mapValues f

end Executable

variable {e e' : Executable}

/-! ## Operands and targets -/

namespace Instruction.ShownAlike

variable {i j : Instruction}

theorem references (h : i.ShownAlike j) : i.references = j.references := by
  cases hi : i.isInlined with
  | true =>
    rw [Instruction.references, h.value hi]
    rfl
  | false =>
    -- A runtime value names nothing.
    have hnone {k : Instruction} (hk : k.isInlined = false) : k.references = [] := by
      unfold Instruction.isInlined at hk
      unfold Instruction.references
      cases hv : k.value with
      | runtime => rfl
      | _ =>
        rw [hv] at hk
        cases hk
    rw [hnone hi, hnone (h.inlined.symm.trans hi)]

theorem constantText (h : i.ShownAlike j) (hi : i.isInlined = true)
    (receiver : InstrId → Except DumpStop String) :
    i.constantText receiver = j.constantText receiver := by
  unfold Instruction.constantText
  rw [h.value hi, h.type hi, h.id]

end Instruction.ShownAlike

namespace Executable

/-- Operands are shown alike where a set of instructions that is closed under receivers is. -/
theorem operand_congr (he : e.NoSelfReceiver) (he' : e'.NoSelfReceiver) {S : InstrId → Prop}
    (hclosed : ∀ id r, S id → e.Receives id r → S r) (halike : ∀ id, S id → e.ShowsAlike e' id)
    {id : InstrId} (hid : S id) : e.operand id = e'.operand id := by
  induction id using receiver_induction he with
  | step id ih =>
    have hshown := halike id hid
    rw [operand_eq he, operand_eq he', lookup, lookup]
    unfold ShowsAlike at hshown
    generalize hi : e.instructions.find? id = found at hshown
    generalize e'.instructions.find? id = found' at hshown
    cases hshown with
    | none => simp only [error_bind]
    | @some i j h =>
      have hreceivers : i.constantText e.operand = i.constantText e'.operand := by
        apply i.constantText_congr
        intro r hr
        have hreceives : e.Receives id r := ⟨i, hi, hr⟩
        exact ih r hreceives (hclosed id r hid hreceives)
      simp only [ok_bind]
      rw [← h.inlined, ← h.id]
      split
      · rename_i hinlined
        rw [hreceivers]
        exact h.constantText hinlined e'.operand
      · rfl

theorem blockReference_congr {id : BlockId} (h : e.NamesAlike e' id) :
    e.blockReference id = e'.blockReference id := by
  unfold NamesAlike at h
  unfold blockReference
  generalize e.blocks.find? id = found at h
  generalize e'.blocks.find? id = found' at h
  cases h with
  | none => rfl
  | some h => simp only [Block.label, h.id, h.nameHint]

end Executable

/-! ## Bodies -/

theorem Layout.textIn_congr {l : Layout}
    (h : ∀ piece ∈ l.pieces, piece.textIn e = piece.textIn e') : l.textIn e = l.textIn e' := by
  have hpart {part : List Piece} (hsub : part ⊆ l.pieces) :
      Piece.textOfAll e part = Piece.textOfAll e' part := by
    rw [Piece.textOfAll, Piece.textOfAll, mapM_congr fun piece hpiece => h piece (hsub hpiece)]
  have hmiddle : l.middle ⊆ l.pieces := by simp [pieces]
  have hbefore : l.before ⊆ l.pieces := by simp [pieces]
  have hafter : l.after ⊆ l.pieces := by simp [pieces]
  rw [textIn, textIn, hpart hmiddle, hpart hbefore, hpart hafter]

/-- The body depends on the operands and on the targets, and for a constant on the instructions
its value names. -/
theorem Instruction.body_congr {i : Instruction}
    (howned : i.operation = .const → ∀ id ∈ i.references, e.operand id = e'.operand id)
    (hoperands : ∀ id ∈ i.operands, e.operand id = e'.operand id)
    (htargets : ∀ id ∈ i.targets, e.blockReference id = e'.blockReference id) :
    i.body e = i.body e' := by
  unfold Instruction.body
  split
  · rename_i hconst
    exact i.constantText_congr (howned hconst)
  · rfl
  · rfl
  · apply Layout.textIn_congr
    intro piece hpiece
    cases piece with
    | text s => rfl
    | operand id =>
      have hshown := Operation.operand_mem_layout.mp hpiece
      exact hoperands id (Operation.mem_operands_of_shown hshown)
    | reference id => rfl
    | label id => exact htargets id (Operation.label_mem_layout.mp hpiece)

namespace Executable

/-- The body is the same where what the line may look at is. -/
theorem body_eq_of_alike (he : e.NoSelfReceiver) (he' : e'.NoSelfReceiver) {i : Instruction}
    (htargets : ∀ id ∈ i.targets, e.NamesAlike e' id)
    (hneeds : ∀ id, e.Needs i id → e.ShowsAlike e' id) : i.body e = i.body e' := by
  have hoperand {id : InstrId} (hid : e.Needs i id) : e.operand id = e'.operand id :=
    operand_congr he he' (fun _ _ hid hr => hid.receiver hr) hneeds hid
  apply Instruction.body_congr
  · intro hconst id hid
    exact hoperand (.own hconst hid)
  · intro id hid
    exact hoperand (.operand hid)
  · intro id hid
    exact blockReference_congr (htargets id hid)

/-! ## Executables that look the same -/

section Revised

variable {f : InstrId → Instruction → Instruction} {g : BlockId → Block → Block}

theorem showsAlike_revised (hf : ∀ id (j : Instruction), j.ShownAlike (f id j)) (id : InstrId) :
    e.ShowsAlike (e.revised f g) id := by
  unfold ShowsAlike revised
  rw [Table.find?_mapValues]
  cases e.instructions.find? id with
  | none => exact .none
  | some j => exact .some (hf id j)

theorem namesAlike_revised (hg : ∀ id (b : Block), b.NamedAlike (g id b)) (id : BlockId) :
    e.NamesAlike (e.revised f g) id := by
  unfold NamesAlike revised
  rw [Table.find?_mapValues]
  cases e.blocks.find? id with
  | none => exact .none
  | some b => exact .some (hg id b)

theorem receives_of_revised (hf : ∀ id (j : Instruction), j.ShownAlike (f id j)) {id r : InstrId}
    (h : (e.revised f g).Receives id r) : e.Receives id r := by
  obtain ⟨i, hi, hr⟩ := h
  unfold revised at hi
  rw [Table.find?_mapValues, Option.map_eq_some_iff] at hi
  obtain ⟨j, hj, rfl⟩ := hi
  rw [← (hf id j).references] at hr
  exact ⟨j, hj, hr⟩

theorem NoSelfReceiver.revised (he : e.NoSelfReceiver)
    (hf : ∀ id (j : Instruction), j.ShownAlike (f id j)) : (e.revised f g).NoSelfReceiver := by
  intro id hcycle
  exact he id (Relation.TransGen.mono (fun _ _ h => receives_of_revised hf h) id id hcycle)

end Revised

/-- A line is the same in two executables, or has no text in both for the same reason, where its
targets have the same names and the instructions it may look at look the same. So it does not
change when other operations, operands and use counts are given to the instructions, when
another type is given to those that are runtime values, and when blocks list other
instructions. -/
theorem line_local (he : e.NoSelfReceiver) (i : Instruction) (margin : Nat) :
    (∀ e' : Executable, e'.NoSelfReceiver → (∀ id ∈ i.targets, e.NamesAlike e' id) →
      (∀ id, e.Needs i id → e.ShowsAlike e' id) → i.line e margin = i.line e' margin) ∧
    ∀ (f : InstrId → Instruction → Instruction) (g : BlockId → Block → Block),
      (∀ id (j : Instruction), j.ShownAlike (f id j)) →
      (∀ id (b : Block), b.NamedAlike (g id b)) →
      i.line e margin = i.line (e.revised f g) margin := by
  constructor
  · intro e' he' htargets hneeds
    rw [Instruction.line, Instruction.line, body_eq_of_alike he he' htargets hneeds]
  · intro f g hf hg
    have hbody : i.body e = i.body (e.revised f g) :=
      body_eq_of_alike he (he.revised hf) (fun id _ => namesAlike_revised hg id)
        (fun id _ => showsAlike_revised hf id)
    rw [Instruction.line, Instruction.line, hbody]

/-- A branch on a bound function. -/
def boundBranch : Instruction := ⟨2, none, 0, .runtime, .condBr 0 1 4 false⟩

/-- A loop that ends in the branch. -/
def branchLoop : Executable where
  blocks := .ofList [(0, ⟨0, "entry", [0, 1, 2]⟩), (1, ⟨1, "loop", []⟩), (4, ⟨4, "exit", [3]⟩)]
  instructions := .ofList
    [(0, ⟨0, some (.ofPlain .boundFn), 1, .static (.boundFn "f" 1), .const⟩),
     (1, ⟨1, some (.ofPlain .bool), 0, .runtime, .loadPtr 3⟩), (2, boundBranch),
     (3, ⟨3, none, 0, .undef, .const⟩)]

/-- What the branch shows, in other hands: other operations, types, use counts and lists. -/
def branchRow : Executable where
  blocks := .ofList [(4, ⟨4, "exit", []⟩), (1, ⟨1, "loop", [2, 0]⟩)]
  instructions := .ofList
    [(1, ⟨1, none, 7, .runtime, .unreachable⟩),
     (0, ⟨0, some (.ofPlain .boundFn), 0, .static (.boundFn "f" 1), .ref 9⟩)]

theorem needs_boundBranch {id : InstrId} (h : branchLoop.Needs boundBranch id) :
    id = 0 ∨ id = 1 := by
  induction h with
  | operand hid => exact .inl (List.mem_singleton.mp hid)
  | own hconst => cases hconst
  | receiver _ hr ih =>
    obtain ⟨i, hi, hr⟩ := hr
    rcases ih with rfl | rfl
    · cases hi
      exact .inr (List.mem_singleton.mp hr)
    · cases hi
      cases hr

theorem line_boundBranch :
    boundBranch.line branchLoop 2 =
        .ok "  #2  | (unknown)   | - | if (bound f to #1) loop_1 else exit_4" ∧
      boundBranch.line branchLoop 2 = boundBranch.line branchRow 2 ∧
      boundBranch.line branchLoop 2 =
        boundBranch.line
          (branchLoop.revised (fun _ j => { j with operation := .unreachable, refCount := 3 })
            fun _ b => { b with instructions := [9] }) 2 := by
  have hline : boundBranch.line branchLoop 2 =
      .ok "  #2  | (unknown)   | - | if (bound f to #1) loop_1 else exit_4" := by decide +kernel
  let rank (id : InstrId) : Nat := if id = 0 then 1 else 0
  have hself : branchLoop.NoSelfReceiver := noSelfReceiver_of_rank rank (by decide)
  have hself' : branchRow.NoSelfReceiver := noSelfReceiver_of_rank rank (by decide)
  obtain ⟨hlocal, hrevised⟩ := line_local hself boundBranch 2
  refine ⟨hline, hlocal branchRow hself' ?_ ?_, ?_⟩
  · intro id hid
    rcases List.mem_pair.mp hid with rfl | rfl
    · exact .some ⟨rfl, rfl⟩
    · exact .some ⟨rfl, rfl⟩
  · intro id hid
    rcases needs_boundBranch hid with rfl | rfl
    · exact .some ⟨rfl, rfl, fun _ => rfl, fun _ => rfl⟩
    · exact .some ⟨rfl, rfl, nofun, nofun⟩
  · apply hrevised
    · exact fun _ _ => ⟨rfl, rfl, fun _ => rfl, fun _ => rfl⟩
    · exact fun _ _ => ⟨rfl, rfl⟩

end Executable

end BlockIr
