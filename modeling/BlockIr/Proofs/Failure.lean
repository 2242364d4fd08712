import BlockIr.Dump.Basic
import BlockIr.Proofs.Layout
import BlockIr.Proofs.Receivers

/-!
# Where a dump stops

A dump writes its chunks in order until one has no text. Labels always have a text, so a dump
into a buffer stops at the line of a listed instruction, and what stops it is a problem of that
line: of its operation, of one of its operands, or of one of its targets.

* `Instruction.body_error`: why a line has no text.
* `Executable.dump_buffer_error`: where a dump into a buffer stopped, and what was written.
* `Executable.dump_error`: a dump into any destination stops at a line or is refused.
-/

namespace BlockIr

variable {e : Executable} {p : DumpStop}

theorem Executable.blockReference_error {id : BlockId} (h : e.blockReference id = .error p) :
    e.blocks.find? id = none ∧ p = .problem (.missingBlock id) := by
  unfold Executable.blockReference at h
  cases hb : e.blocks.find? id with
  | none =>
    rw [hb] at h
    cases h
    exact ⟨rfl, rfl⟩
  | some b =>
    rw [hb] at h
    cases h

/-! ## Lines -/

/-- Only operands and labels can have no text. -/
theorem Piece.textIn_error {piece : Piece} (h : piece.textIn e = .error p) :
    (∃ id, piece = .operand id ∧ e.operand id = .error p) ∨
      ∃ id, piece = .label id ∧ e.blockReference id = .error p := by
  cases piece with
  | operand id => exact .inl ⟨id, rfl, h⟩
  | label id => exact .inr ⟨id, rfl, h⟩
  | text s => cases h
  | reference id => cases h

/-- A row has no text because of a piece in it. -/
theorem Piece.textOfAll_error {pieces : List Piece} (h : textOfAll e pieces = .error p) :
    ∃ piece ∈ pieces, piece.textIn e = .error p := by
  rcases bind_eq_error.mp h with h | ⟨_, _, h⟩
  · exact mapM_eq_error h
  · cases h

theorem Layout.textIn_error {l : Layout} (h : l.textIn e = .error p) :
    ∃ piece ∈ l.pieces, piece.textIn e = .error p := by
  have hpart : ∃ part, part ⊆ l.pieces ∧ Piece.textOfAll e part = .error p := by
    unfold Layout.pieces
    rcases bind_eq_error.mp h with h | ⟨_, _, h⟩
    · exact ⟨l.middle, by simp, h⟩
    · rcases bind_eq_error.mp h with h | ⟨_, _, h⟩
      · exact ⟨l.before, by simp, h⟩
      · rcases bind_eq_error.mp h with h | ⟨_, _, h⟩
        · exact ⟨l.after, by simp, h⟩
        · cases h
  obtain ⟨part, hpart, h⟩ := hpart
  obtain ⟨piece, hpiece, h⟩ := Piece.textOfAll_error h
  exact ⟨piece, hpart hpiece, h⟩

/-- An instruction has no body because of its own value, if it is a constant, because it is a
phi without edges, because of its kind, or because of an operand or a target that it shows. -/
theorem Instruction.body_error_of_shown {i : Instruction} (h : i.body e = .error p) :
    (i.operation = .const ∧ i.constantText e.operand = .error p) ∨
      (i.operation = .phi [] ∧ p = .problem (.emptyPhi i.id)) ∨
      (∃ kind, i.operation = .unrecognised kind ∧ p = .problem (.unknownOperation kind)) ∨
      (∃ id, .operand id ∈ i.operation.shown ∧ e.operand id = .error p) ∨
      ∃ id ∈ i.targets, e.blockReference id = .error p := by
  unfold Instruction.body at h
  split at h
  · rename_i hop
    exact .inl ⟨hop, h⟩
  · rename_i hop
    cases h
    exact .inr (.inl ⟨hop, rfl⟩)
  · rename_i kind hop
    cases h
    exact .inr (.inr (.inl ⟨kind, hop, rfl⟩))
  · obtain ⟨piece, hpiece, h⟩ := Layout.textIn_error h
    rcases Piece.textIn_error h with ⟨id, rfl, h⟩ | ⟨id, rfl, h⟩
    · exact .inr (.inr (.inr (.inl ⟨id, Operation.operand_mem_layout.mp hpiece, h⟩)))
    · exact .inr (.inr (.inr (.inr ⟨id, Operation.label_mem_layout.mp hpiece, h⟩)))

theorem Instruction.body_error {i : Instruction} (h : i.body e = .error p) :
    (i.operation = .const ∧ i.constantText e.operand = .error p) ∨
      (i.operation = .phi [] ∧ p = .problem (.emptyPhi i.id)) ∨
      (∃ kind, i.operation = .unrecognised kind ∧ p = .problem (.unknownOperation kind)) ∨
      (∃ id ∈ i.operands, e.operand id = .error p) ∨
      ∃ id ∈ i.targets, e.blockReference id = .error p := by
  rcases Instruction.body_error_of_shown h with h | h | h | ⟨id, hid, h⟩ | h
  · exact .inl h
  · exact .inr (.inl h)
  · exact .inr (.inr (.inl h))
  · exact .inr (.inr (.inr (.inl ⟨id, Operation.mem_operands_of_shown hid, h⟩)))
  · exact .inr (.inr (.inr (.inr h)))

theorem Instruction.line_error {margin : Nat} {i : Instruction}
    (h : i.line e margin = .error p) : i.body e = .error p := by
  rcases bind_eq_error.mp h with h | ⟨_, _, h⟩
  · exact h
  · cases h

/-! ## Chunks -/

/-- A stream refuses a write with its own failure only. -/
theorem StreamSink.write_error {sink : StreamSink} {text : String} {p : DumpError}
    (h : Sink.write sink text = .error p) : ∃ reason, p = .streamFailed reason := by
  simp only [Sink.write] at h
  split at h
  · rename_i reason _
    cases h
    exact ⟨reason, rfl⟩
  · cases h

namespace Executable

variable {margin : Nat}

/-- Labels have a text; a line fails when its instruction is absent or has no body. -/
theorem chunkText_error {chunk : Chunk} (h : e.chunkText margin chunk = .error p) :
    ∃ id, chunk = .line id ∧
      ((e.instructions.find? id = none ∧ p = .problem (.missingInstruction id)) ∨
        ∃ i, e.instructions.find? id = some i ∧ i.body e = .error p) := by
  cases chunk with
  | label b => cases h
  | line id =>
    refine ⟨id, rfl, ?_⟩
    simp only [chunkText, lookup] at h
    cases hi : e.instructions.find? id with
    | none =>
      rw [hi] at h
      cases h
      exact .inl ⟨rfl, rfl⟩
    | some i =>
      rw [hi] at h
      simp only [ok_bind] at h
      rcases bind_eq_error.mp h with h | ⟨_, _, h⟩
      · exact .inr ⟨i, rfl, Instruction.line_error h⟩
      · cases h

/-- A line of the schedule belongs to a block that lists its instruction. -/
theorem line_mem_schedule {id : InstrId} :
    Chunk.line id ∈ e.schedule ↔ ∃ b ∈ e.blocks.values, id ∈ b.instructions := by
  simp [schedule, Block.chunks]

/-- A dump into any destination stops at a chunk without a text or at a write that is
refused. -/
theorem writeChunks_error {σ : Type} [Sink σ] {chunks : List Chunk} {sink : σ}
    (h : (e.writeChunks margin chunks sink).2 = some p) :
    (∃ chunk ∈ chunks, e.chunkText margin chunk = .error p) ∨
      ∃ (s : σ) (text : String) (refusal : DumpError),
        Sink.write s text = .error refusal ∧ p = .problem refusal := by
  induction chunks generalizing sink with
  | nil => cases h
  | cons chunk rest ih =>
    simp only [writeChunks] at h
    split at h
    · rename_i stop hchunk
      cases h
      exact .inl ⟨chunk, List.mem_cons_self, hchunk⟩
    · split at h
      · rename_i problem hwrite
        cases h
        exact .inr ⟨sink, _, problem, hwrite, rfl⟩
      · rcases ih h with ⟨chunk', hmem, hchunk⟩ | hwrite
        · exact .inl ⟨chunk', List.mem_cons_of_mem _ hmem, hchunk⟩
        · exact .inr hwrite

theorem dump_error {σ : Type} [Sink σ] {sink : σ} (h : (e.dump margin sink).2 = some p) :
    (∃ chunk ∈ e.schedule, e.chunkText margin chunk = .error p) ∨
      ∃ (s : σ) (text : String) (refusal : DumpError),
        Sink.write s text = .error refusal ∧ p = .problem refusal :=
  writeChunks_error h

/-- The chunks up to the first one without a text are in the buffer. -/
theorem writeChunks_buffer_error {chunks : List Chunk} {sink sink' : BufferSink}
    (h : e.writeChunks margin chunks sink = (sink', some p)) :
    ∃ before chunk after texts, chunks = before ++ chunk :: after ∧
      before.mapM (e.chunkText margin) = .ok texts ∧ e.chunkText margin chunk = .error p ∧
      sink'.text = sink.text ++ String.join texts := by
  induction chunks generalizing sink with
  | nil => cases h
  | cons chunk rest ih =>
    simp only [writeChunks] at h
    split at h
    · rename_i stop hchunk
      cases h
      exact ⟨[], chunk, rest, [], rfl, rfl, hchunk, by simp⟩
    · rename_i text hchunk
      obtain ⟨before, chunk', after, texts, hrest, htexts, hchunk', hsink⟩ := ih h
      refine ⟨chunk :: before, chunk', after, text :: texts, by rw [hrest]; rfl, ?_, hchunk', ?_⟩
      · rw [List.mapM_cons, hchunk, htexts]
        rfl
      · rw [hsink, String.join_cons, String.append_assoc]

/-- A dump into a buffer stops at a chunk of the schedule; every chunk before it is in the
buffer, and nothing else. -/
theorem dump_buffer_error {sink sink' : BufferSink}
    (h : e.dump margin sink = (sink', some p)) :
    ∃ before chunk after texts, e.schedule = before ++ chunk :: after ∧
      before.mapM (e.chunkText margin) = .ok texts ∧ e.chunkText margin chunk = .error p ∧
      sink'.text = sink.text ++ String.join texts :=
  writeChunks_buffer_error h

end Executable

end BlockIr
