import BlockIr.Proofs.Description.Operation
import BlockIr.Proofs.Failure

/-!
# Bodies show what an operation reads

The operands and targets of an operation are listed apart from the row it is shown as. Both say
the same: a body has a text if and only if everything that is listed has one, and the texts stand
in the body in the order of the lists, one for every entry.

* `Layout.textIn_eq_ok`: the text of a layout is that of its pieces, from left to right.
* `Instruction.body_succeeds_iff`: which instructions have a body.
* `Instruction.body_shows`: and what it shows.
-/

namespace BlockIr

variable {e : Executable}

/-! ## Rows -/

theorem Piece.textOfAll_eq_ok {pieces : List Piece} {text : String}
    (h : textOfAll e pieces = .ok text) :
    ∃ texts, List.Forall₂ (fun piece t => piece.textIn e = .ok t) pieces texts ∧
      text = String.join texts := by
  obtain ⟨texts, htexts, h⟩ := bind_eq_ok.mp h
  cases h
  exact ⟨texts, mapM_eq_ok htexts, rfl⟩

/-- The text of a layout is that of its pieces, from left to right, although its middle part is
written first. -/
theorem Layout.textIn_eq_ok {l : Layout} {text : String} (h : l.textIn e = .ok text) :
    ∃ texts, List.Forall₂ (fun piece t => piece.textIn e = .ok t) l.pieces texts ∧
      text = String.join texts := by
  obtain ⟨middle, hmiddle, h⟩ := bind_eq_ok.mp h
  obtain ⟨before, hbefore, h⟩ := bind_eq_ok.mp h
  obtain ⟨after, hafter, h⟩ := bind_eq_ok.mp h
  cases h
  obtain ⟨ms, hms, rfl⟩ := Piece.textOfAll_eq_ok hmiddle
  obtain ⟨bs, hbs, rfl⟩ := Piece.textOfAll_eq_ok hbefore
  obtain ⟨as, has, rfl⟩ := Piece.textOfAll_eq_ok hafter
  refine ⟨bs ++ ms ++ as, List.rel_append (List.rel_append hbs hms) has, ?_⟩
  rw [String.join_append, String.join_append]

/-! ## Bodies -/

namespace Instruction

variable {i : Instruction} {text : String}

/-- The body of an instruction that is no constant is the row of its operation. -/
theorem layout_of_body (h : i.body e = .ok text) (hop : i.operation ≠ .const) :
    i.operation.layout.textIn e = .ok text := by
  unfold body at h
  split at h
  · rename_i hconst
    exact absurd hconst hop
  · cases h
  · cases h
  · exact h

theorem texts_of_body (h : i.body e = .ok text) (hop : i.operation ≠ .const) :
    ∃ texts, List.Forall₂ (fun piece t => piece.textIn e = .ok t) i.operation.layout.pieces texts ∧
      text = String.join texts :=
  Layout.textIn_eq_ok (layout_of_body h hop)

/-- Everything that a body shows has a text. -/
theorem textIn_of_body (h : i.body e = .ok text) {piece : Piece}
    (hpiece : piece ∈ i.operation.layout.pieces) : ∃ t, piece.textIn e = .ok t := by
  by_cases hop : i.operation = .const
  · rw [hop] at hpiece
    cases hpiece
  · obtain ⟨texts, htexts, -⟩ := texts_of_body h hop
    obtain ⟨t, -, ht⟩ := exists_of_mem_right htexts.flip hpiece
    exact ⟨t, ht⟩

/-- An instruction has a body if and only if every operand and every target that it shows has a
text, it is no phi without edges and, for a constant, its own value has a text. -/
theorem body_succeeds_iff (hop : i.operation.Recognised) :
    (∃ text, i.body e = .ok text) ↔
      (∀ id, .operand id ∈ i.operation.shown → ∃ t, e.operand id = .ok t) ∧
      (∀ id ∈ i.targets, ∃ t, e.blockReference id = .ok t) ∧ i.operation ≠ .phi [] ∧
      (i.operation = .const → ∃ t, i.constantText e.operand = .ok t) := by
  constructor
  · rintro ⟨text, h⟩
    refine ⟨?_, ?_, ?_, ?_⟩
    · intro id hid
      exact textIn_of_body h (Operation.operand_mem_layout.mpr hid)
    · intro id hid
      exact textIn_of_body h (Operation.label_mem_layout.mpr hid)
    · intro hphi
      unfold body at h
      rw [hphi] at h
      cases h
    · intro hconst
      unfold body at h
      rw [hconst] at h
      exact ⟨text, h⟩
  · rintro ⟨hoperands, htargets, hphi, hconst⟩
    have hnot {x : Except DumpStop String} {p : DumpStop} (h : ∃ t, x = .ok t) :
        x ≠ .error p := by
      obtain ⟨t, rfl⟩ := h
      exact nofun
    cases h : i.body e with
    | ok text => exact ⟨text, rfl⟩
    | error p =>
      rcases body_error_of_shown h with
        ⟨hop', h⟩ | ⟨hop', -⟩ | ⟨kind, hop', -⟩ | ⟨id, hid, h⟩ | ⟨id, hid, h⟩
      · exact absurd h (hnot (hconst hop'))
      · exact absurd hop' hphi
      · rw [hop'] at hop
        exact hop.elim
      · exact absurd h (hnot (hoperands id hid))
      · exact absurd h (hnot (htargets id hid))

/-- An instruction has a body if and only if what its operation lists has a text. The body is then
a row that the operation alone decides: it shows the operands in the order of their list and the
targets in the order of theirs, each as often as it is listed, and the destination of a store by
its id. -/
theorem body_shows (i : Instruction) (hop : i.operation.Recognised) :
    (∀ e : Executable, (∃ text, i.body e = .ok text) ↔
      (∀ id, .operand id ∈ i.operation.shown → ∃ t, e.operand id = .ok t) ∧
      (∀ id ∈ i.targets, ∃ t, e.blockReference id = .ok t) ∧ i.operation ≠ .phi [] ∧
      (i.operation = .const → ∃ t, i.constantText e.operand = .ok t)) ∧
    (i.operation ≠ .const → ∃ row : List Piece,
      Piece.instructions row = i.operation.shown ∧ Piece.labelSlots row = i.targets ∧
      ∀ (e : Executable) (text : String), i.body e = .ok text →
        ∃ texts, List.Forall₂ (fun piece t => piece.textIn e = .ok t) row texts ∧
          text = String.join texts) ∧
    Piece.instructionSlots i.operation.shown = i.operands ∧
    ∀ id, .reference id ∈ i.operation.shown ↔ ∃ a, i.operation = .storePtr id a := by
  refine ⟨fun e => body_succeeds_iff hop, ?_, i.operation.instructionSlots_shown,
    fun id => Operation.reference_mem_shown⟩
  intro hconst
  refine ⟨i.operation.layout.pieces, i.operation.instructions_layout,
    i.operation.labelSlots_layout, ?_⟩
  intro e text h
  exact texts_of_body h hconst

/-- A switch with two cases for one block. -/
def twoWaySwitch : Instruction :=
  ⟨5, none, 0, .runtime, .switchBr 0 [⟨1, 7⟩, ⟨2, 7⟩] 3 true⟩

/-- The blocks and the values of a switch. -/
def switchWorld : Executable where
  blocks := .ofList [(3, ⟨3, "exit", []⟩), (7, ⟨7, "case", []⟩)]
  instructions := .ofList
    [(0, ⟨0, none, 0, .runtime, .loadPtr 4⟩),
     (1, ⟨1, some (.ofPlain .bool), 0, .static (.bool true), .const⟩),
     (2, ⟨2, some (.ofPlain .bool), 0, .static (.bool false), .const⟩)]

theorem body_twoWaySwitch :
    twoWaySwitch.operation.Recognised ∧ twoWaySwitch.operation ≠ .const ∧
      twoWaySwitch.body switchWorld =
        .ok "inline switch (#0) true => case_7, false => case_7, else => exit_3" ∧
      ∃ row : List Piece,
        Piece.instructions row = [.operand 0, .operand 1, .operand 2] ∧
        Piece.labelSlots row = [7, 7, 3] ∧
        ∃ texts, List.Forall₂ (fun piece t => piece.textIn switchWorld = .ok t) row texts ∧
          String.join texts =
            "inline switch (#0) true => case_7, false => case_7, else => exit_3" := by
  have hop : twoWaySwitch.operation.Recognised := trivial
  have hconst : twoWaySwitch.operation ≠ .const := by decide
  have hbody : twoWaySwitch.body switchWorld =
      .ok "inline switch (#0) true => case_7, false => case_7, else => exit_3" := by
    decide +kernel
  obtain ⟨-, hrow, -⟩ := body_shows twoWaySwitch hop
  obtain ⟨row, hinstructions, hlabels, htexts⟩ := hrow hconst
  obtain ⟨texts, htexts, htext⟩ := htexts switchWorld _ hbody
  exact ⟨hop, hconst, hbody, row, hinstructions, hlabels, texts, htexts, htext.symm⟩

end Instruction

end BlockIr
