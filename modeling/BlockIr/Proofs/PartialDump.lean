import BlockIr.Proofs.References

/-!
# What a dump leaves behind

A dump writes the schedule, block by block: the label, then a line for every listed instruction.
If every listed instruction has a line, all of it is written. If not, the dump stops at the first
one without a line, with the problem of that one, and has written exactly what is scheduled before
it: the blocks before its block, the label of its block and the lines before its own.

* `Executable.Listing`: a listed instruction, and what is listed before and after it.
* `Executable.exists_listing`: every line of the schedule belongs to a listing.
* `Executable.dump_exact`: when a dump into a buffer is complete, where it stops otherwise, and
  what the buffer holds then.
-/

namespace BlockIr.Executable

/-- A listed instruction, and what is listed before and after it. -/
structure Listing (e : Executable) where
  earlier : List Block
  block : Block
  later : List Block
  blocks_eq : e.blocks.values = earlier ++ block :: later
  before : List InstrId
  id : InstrId
  after : List InstrId
  instructions_eq : block.instructions = before ++ id :: after

variable {e : Executable} {margin : Nat} {p : DumpStop}

/-- What is scheduled before the line of a listed instruction. -/
def Listing.scheduled (l : e.Listing) : List Chunk :=
  l.earlier.flatMap Block.chunks ++ .label l.block :: l.before.map .line

theorem Listing.schedule_eq (l : e.Listing) :
    ∃ rest, e.schedule = l.scheduled ++ .line l.id :: rest := by
  refine ⟨l.after.map .line ++ l.later.flatMap Block.chunks, ?_⟩
  simp [schedule, scheduled, Block.chunks, l.blocks_eq, l.instructions_eq]

/-- A line among the chunks of a block is that of an instruction it lists. -/
theorem split_of_chunks {b : Block} {done rest : List Chunk} {id : InstrId}
    (h : b.chunks = done ++ .line id :: rest) :
    ∃ before after, b.instructions = before ++ id :: after ∧
      done = .label b :: before.map .line := by
  cases done with
  | nil => cases h
  | cons chunk done =>
    obtain ⟨rfl, hlines⟩ := List.cons_eq_cons.mp h
    obtain ⟨before, tail, hinstructions, rfl, htail⟩ := List.map_eq_append_iff.mp hlines
    obtain ⟨id', after, rfl, hid, -⟩ := List.map_eq_cons_iff.mp htail
    cases hid
    exact ⟨before, after, hinstructions, rfl⟩

/-- A line among the chunks of some blocks belongs to one of them. -/
theorem split_of_flatMap_chunks {blocks : List Block} {done rest : List Chunk} {id : InstrId}
    (h : blocks.flatMap Block.chunks = done ++ .line id :: rest) :
    ∃ earlier b later before after, blocks = earlier ++ b :: later ∧
      b.instructions = before ++ id :: after ∧
      done = earlier.flatMap Block.chunks ++ .label b :: before.map .line := by
  induction blocks generalizing done with
  | nil => simp at h
  | cons b blocks ih =>
    rw [List.flatMap_cons, List.append_eq_append_iff] at h
    rcases h with ⟨done', rfl, h⟩ | ⟨rest', hb, h⟩
    · obtain ⟨earlier, b', later, before, after, rfl, hinstructions, rfl⟩ := ih h
      exact ⟨b :: earlier, b', later, before, after, rfl, hinstructions, by simp⟩
    · cases rest' with
      | nil =>
        -- The line would be the first chunk of the blocks that follow, which is a label.
        have hfirst : blocks.flatMap Block.chunks = [] ++ .line id :: rest := h.symm
        obtain ⟨earlier, b', later, before, after, -, -, hdone⟩ := ih hfirst
        simp at hdone
      | cons chunk rest' =>
        obtain ⟨rfl, -⟩ := List.cons_eq_cons.mp h
        obtain ⟨before, after, hinstructions, rfl⟩ := split_of_chunks hb
        exact ⟨[], b, blocks, before, after, rfl, hinstructions, rfl⟩

/-- Every line of the schedule belongs to a listing. -/
theorem exists_listing {done rest : List Chunk} {id : InstrId}
    (h : e.schedule = done ++ .line id :: rest) :
    ∃ l : e.Listing, l.scheduled = done ∧ l.id = id := by
  obtain ⟨earlier, b, later, before, after, hblocks, hinstructions, rfl⟩ :=
    split_of_flatMap_chunks h
  exact ⟨⟨earlier, b, later, hblocks, before, id, after, hinstructions⟩, rfl, rfl⟩

theorem chunkText_line_eq_error {id : InstrId} :
    e.chunkText margin (.line id) = .error p ↔ e.lineOf margin id = .error p := by
  rw [chunkText_line]
  cases e.lineOf margin id <;> simp

/-- Every chunk has a text if every listed instruction has a line: labels always have one. -/
theorem texts_of_lines (h : ∀ b ∈ e.blocks.values, ∀ id ∈ b.instructions,
    ∃ line, e.lineOf margin id = .ok line) :
    ∃ texts, e.schedule.mapM (e.chunkText margin) = .ok texts := by
  refine exists_mapM_eq_ok fun chunk hchunk => ?_
  cases chunk with
  | label b => exact ⟨_, rfl⟩
  | line id =>
    obtain ⟨b, hb, hid⟩ := line_mem_schedule.mp hchunk
    obtain ⟨line, hline⟩ := h b hb id hid
    exact ⟨line ++ "\n", by rw [chunkText_line, hline, map_ok]⟩

/-- A dump into a buffer is complete if and only if every chunk has a text; the buffer then holds
all of them. -/
theorem dump_complete_iff {prior after : BufferSink} :
    e.dump margin prior = (after, none) ↔
      ∃ texts, e.schedule.mapM (e.chunkText margin) = .ok texts ∧
        after.text = prior.text ++ String.join texts := by
  constructor
  · intro h
    obtain ⟨texts, htexts⟩ := exists_mapM_eq_ok (texts_of_writeChunks (congrArg Prod.snd h))
    rw [dump, writeChunks_buffer htexts] at h
    cases h
    exact ⟨texts, htexts, rfl⟩
  · rintro ⟨texts, htexts, hafter⟩
    rw [dump, writeChunks_buffer htexts, ← hafter]

/-- A dump into a buffer stops at a listed instruction if and only if its line is the first one
that has no text; the buffer then holds what is scheduled before it. -/
theorem dump_stops_iff {prior after : BufferSink} :
    e.dump margin prior = (after, some p) ↔
      ∃ (l : e.Listing) (texts : List String),
        l.scheduled.mapM (e.chunkText margin) = .ok texts ∧ e.lineOf margin l.id = .error p ∧
        after.text = prior.text ++ String.join texts := by
  constructor
  · intro h
    obtain ⟨done, chunk, rest, texts, hschedule, htexts, hchunk, hafter⟩ := dump_buffer_error h
    obtain ⟨id, rfl, -⟩ := chunkText_error hchunk
    obtain ⟨l, rfl, rfl⟩ := exists_listing hschedule
    exact ⟨l, texts, htexts, chunkText_line_eq_error.mp hchunk, hafter⟩
  · rintro ⟨l, texts, htexts, hline, hafter⟩
    obtain ⟨rest, hschedule⟩ := l.schedule_eq
    rw [dump, hschedule, writeChunks_buffer_append htexts, writeChunks,
      chunkText_line_eq_error.mpr hline, ← hafter]

/-- A dump into a buffer is complete if and only if every listed instruction has a line, and the
buffer then holds all chunks of the schedule after what it held before. If not, the dump stops at
the first listed instruction without a line, with its problem, and the buffer holds the chunks
scheduled before that line. -/
theorem dump_exact (e : Executable) (margin : Nat) (prior : BufferSink) :
    ((∃ after, e.dump margin prior = (after, none)) ↔
      ∀ b ∈ e.blocks.values, ∀ id ∈ b.instructions, ∃ line, e.lineOf margin id = .ok line) ∧
    (∀ after, e.dump margin prior = (after, none) ↔
      ∃ texts, e.schedule.mapM (e.chunkText margin) = .ok texts ∧
        after.text = prior.text ++ String.join texts) ∧
    ∀ after p, e.dump margin prior = (after, some p) ↔
      ∃ (l : e.Listing) (texts : List String),
        l.scheduled.mapM (e.chunkText margin) = .ok texts ∧ e.lineOf margin l.id = .error p ∧
        after.text = prior.text ++ String.join texts := by
  refine ⟨⟨?_, fun h => ?_⟩, fun _ => dump_complete_iff, fun _ _ => dump_stops_iff⟩
  · rintro ⟨after, h⟩ b hb id hid
    exact line_of_dump (congrArg Prod.snd h) hb hid
  · obtain ⟨texts, htexts⟩ := texts_of_lines h
    exact ⟨⟨prior.text ++ String.join texts⟩, dump_complete_iff.mpr ⟨texts, htexts, rfl⟩⟩

/-- One instruction is listed twice, and another one shows a constant that does not fit its type.
After it an id is listed that leads nowhere. -/
def misfitRow : Executable where
  blocks := .ofList [(0, ⟨0, "entry", [0, 0]⟩), (1, ⟨1, "exit", [1, 2, 9]⟩)]
  instructions := .ofList
    [(0, ⟨0, some (.ofPlain .void), 0, .runtime, .br 1 false⟩),
     (1, ⟨1, some (.pointerTo (.ofPlain .bool) false), 1,
       .static (.pointer (.static (.int 3))), .ref 0⟩),
     (2, ⟨2, none, 0, .runtime, .ret 1⟩)]

/-- The line that fails. -/
def misfitListing : misfitRow.Listing where
  earlier := [⟨0, "entry", [0, 0]⟩]
  block := ⟨1, "exit", [1, 2, 9]⟩
  later := []
  blocks_eq := rfl
  before := [1]
  id := 2
  after := [9]
  instructions_eq := rfl

theorem dump_misfitRow : misfitRow.dump 1 (⟨"> "⟩ : BufferSink) =
    (⟨"> entry_0:\n" ++ " #0  | void        | - | goto exit_1\n" ++
        " #0  | void        | - | goto exit_1\n" ++ "exit_1:\n" ++
        " #1  | &bool       | 1 | ref #0\n"⟩,
      some (.problem (.mismatch "bool" "bool" "int"))) := by
  obtain ⟨-, -, hstops⟩ := dump_exact misfitRow 1 ⟨"> "⟩
  rw [hstops]
  refine ⟨misfitListing, ["entry_0:\n", " #0  | void        | - | goto exit_1\n",
    " #0  | void        | - | goto exit_1\n", "exit_1:\n", " #1  | &bool       | 1 | ref #0\n"],
    ?_, ?_, ?_⟩
  · decide +kernel
  · decide +kernel
  · decide +kernel

end BlockIr.Executable
