import Mathlib.Data.List.DropRight
import BlockIr.Proofs.Issues
import BlockIr.Proofs.Spelling

/-!
# References in a dump

A dump names instructions by the ids of their lines and blocks by their labels. In the dump of an
executable that passes the validation every such name is unambiguous: exactly one line has the
id, and exactly one block the label, whatever the hints of the blocks are. Both are read from the
text alone, the id from the first column of a line and the id of a block from the end of its
label.

* `idColumn_line`: a line shows the id of its instruction.
* `Block.id_eq_of_label_eq`: a label determines the id of the block.
* `Executable.written`: what a dump writes, block by block.
* `Executable.dump_unambiguous`: every reference leads to one line or to one label.
-/

namespace BlockIr

/-! ## Ids in columns and labels -/

/-- The id column of a line, without the blanks that fill it. -/
def idColumn (margin : Nat) (line : String) : String :=
  String.ofList (((line.toList.drop margin).takeWhile (· ≠ '|')).rdropWhile (· = ' '))

theorem not_mem_integer {n : Int} {c : Char} (hdigit : c.isDigit = false) (hminus : c ≠ '-') :
    c ∉ (Text.integer n).toList := by
  intro h
  rcases Text.mem_integer h with hc | hc
  · rw [hdigit] at hc
    cases hc
  · exact hminus hc

theorem not_mem_idText {id : InstrId} {c : Char} (hdigit : c.isDigit = false) (hminus : c ≠ '-')
    (hhash : c ≠ '#') : c ∉ (DumpError.idText id).toList := by
  intro h
  rw [DumpError.idText, String.toList_append, List.mem_append] at h
  rcases h with h | h
  · exact hhash (List.mem_singleton.mp h)
  · exact not_mem_integer hdigit hminus h

theorem column_filled {cs : List Char} (hbar : '|' ∉ cs) (hblank : ' ' ∉ cs) (fill : Nat)
    (rest : List Char) :
    ((cs ++ List.replicate fill ' ' ++ '|' :: rest).takeWhile (· ≠ '|')).rdropWhile (· = ' ') =
      cs := by
  have hcolumn : ∀ c ∈ cs ++ List.replicate fill ' ', decide (c ≠ '|') = true := by
    intro c hc
    rw [decide_eq_true_iff]
    rintro rfl
    rcases List.mem_append.mp hc with hc | hc
    · exact hbar hc
    · cases List.eq_of_mem_replicate hc
  have hfill : ∀ c ∈ List.replicate fill ' ', decide (c = ' ') = true := by
    intro c hc
    rw [decide_eq_true_iff]
    exact List.eq_of_mem_replicate hc
  -- No blank stands in the column itself, so only the fill is dropped.
  have hend : cs.rdropWhile (· = ' ') = cs := by
    rw [List.rdropWhile_eq_self_iff]
    intro hcs hlast
    rw [decide_eq_true_iff] at hlast
    exact hblank (hlast ▸ List.getLast_mem hcs)
  rw [List.takeWhile_append_of_pos hcolumn, List.takeWhile_cons_of_neg (by decide), List.append_nil,
    List.rdropWhile, List.reverse_append, List.reverse_replicate,
    List.dropWhile_append_of_pos hfill]
  exact hend

/-- A line shows the id of its instruction in the id column, however wide it is. -/
theorem idColumn_line (margin : Nat) (i : Instruction) (body : String) :
    idColumn margin (i.columns margin ++ body) = DumpError.idText i.id := by
  obtain ⟨fill, rest, hline⟩ : ∃ fill rest, (i.columns margin ++ body).toList =
      List.replicate margin ' ' ++
        ((DumpError.idText i.id).toList ++ List.replicate fill ' ' ++ '|' :: rest) := by
    let tail : String := Text.padRight typeWidth i.typeName ++ "| " ++
      Text.padRight refCountWidth i.refCountText ++ "| " ++ body
    refine ⟨idWidth - Text.units (Text.integer i.id), ' ' :: tail.toList, ?_⟩
    simp [tail, Instruction.columns, Text.blanks, Text.padRight, DumpError.idText]
  have hbar : '|' ∉ (DumpError.idText i.id).toList :=
    not_mem_idText (by decide) (by decide) (by decide)
  have hblank : ' ' ∉ (DumpError.idText i.id).toList :=
    not_mem_idText (by decide) (by decide) (by decide)
  rw [idColumn, hline, List.drop_left' List.length_replicate, column_filled hbar hblank,
    String.ofList_toList]

/-- The id of a block is what follows the last underscore of its label. -/
theorem Block.rtakeWhile_label (b : Block) :
    b.label.toList.rtakeWhile (· ≠ '_') = (Text.integer b.id).toList := by
  -- The id holds no underscore, so the last one of the label is the one after the hint.
  have hid : ∀ c ∈ (Text.integer b.id).toList.reverse, decide (c ≠ '_') = true := by
    intro c hc
    rw [decide_eq_true_iff]
    rintro rfl
    exact not_mem_integer (by decide) (by decide) (List.mem_reverse.mp hc)
  have hlabel : b.label.toList.reverse =
      (Text.integer b.id).toList.reverse ++ '_' :: b.nameHint.toList.reverse := by
    rw [Block.label, String.toList_append, String.toList_append, List.reverse_append,
      List.reverse_append]
    rfl
  rw [List.rtakeWhile, hlabel, List.takeWhile_append_of_pos hid,
    List.takeWhile_cons_of_neg (by decide), List.append_nil, List.reverse_reverse]

theorem Block.id_eq_of_label_eq {b c : Block} (h : b.label = c.label) : b.id = c.id := by
  rw [← Text.integer_inj, ← String.toList_inj, ← b.rtakeWhile_label, ← c.rtakeWhile_label, h]

/-! ## What a dump writes -/

/-- A block as a dump writes it, without line breaks. -/
structure WrittenBlock where
  label : String
  lines : List String

/-- The chunks of a block, with their line breaks. -/
def WrittenBlock.chunks (w : WrittenBlock) : List String :=
  (w.label ++ ":\n") :: w.lines.map (· ++ "\n")

namespace Executable

def lineOf (e : Executable) (margin : Nat) (id : InstrId) : Except DumpStop String := do
  let i ← e.lookup id
  i.line e margin

def writtenBlock (e : Executable) (margin : Nat) (b : Block) : Except DumpStop WrittenBlock := do
  let lines ← b.instructions.mapM (e.lineOf margin)
  return ⟨b.label, lines⟩

/-- What a dump writes, block by block. -/
def written (e : Executable) (margin : Nat) : Except DumpStop (List WrittenBlock) :=
  e.blocks.values.mapM (e.writtenBlock margin)

/-- Whatever a spelled row refers to stands in exactly one place of what is written: an
instruction in the id column of one line, a block as one label. -/
structure Unambiguous (e : Executable) (margin : Nat) (blocks : List WrittenBlock)
    (row : List Piece) : Prop where
  ids : ∀ id, .reference id ∈ row →
    ((blocks.flatMap WrittenBlock.lines).map (idColumn margin)).count (DumpError.idText id) = 1
  labels : ∀ id, .label id ∈ row → ∃ label, e.blockReference id = .ok label ∧
    (blocks.map WrittenBlock.label).count label = 1

variable {e : Executable} {margin : Nat}

theorem chunkText_line (id : InstrId) :
    e.chunkText margin (.line id) = (· ++ "\n") <$> e.lineOf margin id := by
  rw [chunkText, lineOf]
  cases e.lookup id <;> rfl

/-- A dump that succeeds finds a text for every chunk. -/
theorem texts_of_writeChunks {σ : Type} [Sink σ] {chunks : List Chunk} {sink : σ}
    (h : (e.writeChunks margin chunks sink).2 = none) :
    ∀ chunk ∈ chunks, ∃ text, e.chunkText margin chunk = .ok text := by
  induction chunks generalizing sink with
  | nil => exact nofun
  | cons chunk rest ih =>
    rw [writeChunks] at h
    split at h
    · cases h
    · rename_i text htext
      split at h
      · cases h
      · rintro chunk' (_ | ⟨_, hchunk'⟩)
        · exact ⟨text, htext⟩
        · exact ih h chunk' hchunk'

/-- Chunks with a text are in the buffer when the chunks after them are written. -/
theorem writeChunks_buffer_append {chunks : List Chunk} {texts : List String}
    (h : chunks.mapM (e.chunkText margin) = .ok texts) (rest : List Chunk) (buffer : BufferSink) :
    e.writeChunks margin (chunks ++ rest) buffer =
      e.writeChunks margin rest ⟨buffer.text ++ String.join texts⟩ := by
  replace h := mapM_eq_ok h
  induction h generalizing buffer with
  | nil => simp
  | cons htext _ ih =>
    rw [List.cons_append, writeChunks, htext]
    simp only [Sink.write]
    rw [ih, String.join_cons, String.append_assoc]

theorem writeChunks_buffer {chunks : List Chunk} {texts : List String}
    (h : chunks.mapM (e.chunkText margin) = .ok texts) (buffer : BufferSink) :
    e.writeChunks margin chunks buffer = (⟨buffer.text ++ String.join texts⟩, none) := by
  have happend := writeChunks_buffer_append h [] buffer
  rwa [List.append_nil] at happend

/-- A dump that succeeds has a line for every listed instruction. -/
theorem line_of_dump {σ : Type} [Sink σ] {sink : σ} (h : (e.dump margin sink).2 = none)
    {b : Block} (hb : b ∈ e.blocks.values) {id : InstrId} (hid : id ∈ b.instructions) :
    ∃ line, e.lineOf margin id = .ok line := by
  have hchunk : Chunk.line id ∈ e.schedule := line_mem_schedule.mpr ⟨b, hb, hid⟩
  obtain ⟨text, htext⟩ := texts_of_writeChunks h _ hchunk
  rw [chunkText_line] at htext
  obtain ⟨line, hline, -⟩ := map_eq_ok.mp htext
  exact ⟨line, hline⟩

theorem written_of_dump {σ : Type} [Sink σ] {sink : σ} (h : (e.dump margin sink).2 = none) :
    ∃ blocks, e.written margin = .ok blocks := by
  refine exists_mapM_eq_ok fun b hb => ?_
  obtain ⟨lines, hlines⟩ := exists_mapM_eq_ok fun id hid => line_of_dump h hb hid
  exact ⟨⟨b.label, lines⟩, by rw [writtenBlock, hlines]; rfl⟩

theorem chunks_of_written {blocks : List WrittenBlock} (h : e.written margin = .ok blocks) :
    e.schedule.mapM (e.chunkText margin) = .ok (blocks.flatMap WrittenBlock.chunks) := by
  apply mapM_of_forall₂
  have hblock {b : Block} {w : WrittenBlock} (hw : e.writtenBlock margin b = .ok w) :
      List.Forall₂ (fun chunk t => e.chunkText margin chunk = .ok t) b.chunks w.chunks := by
    obtain ⟨lines, hlines, hw⟩ := bind_eq_ok.mp hw
    cases hw
    refine .cons rfl ?_
    rw [List.forall₂_map_left_iff, List.forall₂_map_right_iff]
    refine (mapM_eq_ok hlines).imp fun id line hline => ?_
    rw [chunkText_line, hline]
    rfl
  exact List.rel_flatMap (mapM_eq_ok h) fun _ _ => hblock

theorem format_of_written {blocks : List WrittenBlock} (h : e.written margin = .ok blocks) :
    e.format margin = .ok (String.join (blocks.flatMap WrittenBlock.chunks)) := by
  rw [format, dump, writeChunks_buffer (chunks_of_written h)]
  simp [BufferSink.empty]

/-! ## References -/

theorem lookup_eq_ok {id : InstrId} {i : Instruction} :
    e.lookup id = .ok i ↔ e.instructions.find? id = some i := by
  rw [lookup]
  split <;> simp [*]

theorem writtenBlock_eq_ok {b : Block} {w : WrittenBlock} (h : e.writtenBlock margin b = .ok w) :
    w.label = b.label ∧ List.Forall₂ (fun id line => ∃ i, e.instructions.find? id = some i ∧
      i.line e margin = .ok line) b.instructions w.lines := by
  obtain ⟨lines, hlines, h⟩ := bind_eq_ok.mp h
  cases h
  refine ⟨rfl, (mapM_eq_ok hlines).imp fun id line hline => ?_⟩
  obtain ⟨i, hi, hline⟩ := bind_eq_ok.mp hline
  exact ⟨i, lookup_eq_ok.mp hi, hline⟩

/-- The lines of a dump are those of the listed instructions, in the order of the lists. -/
theorem lines_of_written {blocks : List WrittenBlock} (h : e.written margin = .ok blocks) :
    List.Forall₂ (fun id line => ∃ i, e.instructions.find? id = some i ∧
      i.line e margin = .ok line) e.listings (blocks.flatMap WrittenBlock.lines) :=
  List.rel_flatMap (mapM_eq_ok h) fun _ _ hw => (writtenBlock_eq_ok hw).2

theorem labels_of_written {blocks : List WrittenBlock} (h : e.written margin = .ok blocks) :
    blocks.map WrittenBlock.label = e.blocks.values.map Block.label := by
  have hlabels : List.Forall₂ Eq (e.blocks.values.map Block.label)
      (blocks.map WrittenBlock.label) := by
    rw [List.forall₂_map_left_iff, List.forall₂_map_right_iff]
    exact (mapM_eq_ok h).imp fun _ _ hw => (writtenBlock_eq_ok hw).1.symm
  rw [List.forall₂_eq_eq_eq] at hlabels
  exact hlabels.symm

namespace Whole

theorem idColumns (he : e.Whole) {blocks : List WrittenBlock}
    (h : e.written margin = .ok blocks) :
    (blocks.flatMap WrittenBlock.lines).map (idColumn margin) =
      e.listings.map DumpError.idText := by
  have hcolumns : List.Forall₂ Eq (e.listings.map DumpError.idText)
      ((blocks.flatMap WrittenBlock.lines).map (idColumn margin)) := by
    rw [List.forall₂_map_left_iff, List.forall₂_map_right_iff]
    refine (lines_of_written h).imp fun id line hline => ?_
    obtain ⟨i, hi, hline⟩ := hline
    obtain ⟨body, -, hline⟩ := bind_eq_ok.mp hline
    cases hline
    rw [idColumn_line, he.instructionIds id i (Table.find?_eq_some_iff.mp hi)]
  rw [List.forall₂_eq_eq_eq] at hcolumns
  exact hcolumns.symm

theorem count_idColumns (he : e.Whole) {blocks : List WrittenBlock}
    (h : e.written margin = .ok blocks) {id : InstrId} (hid : id ∈ e.instructions.keys) :
    ((blocks.flatMap WrittenBlock.lines).map (idColumn margin)).count
      (DumpError.idText id) = 1 := by
  have hinj : Function.Injective DumpError.idText := fun _ _ => DumpError.idText_inj.mp
  rw [he.idColumns h, List.count_map_of_injective _ _ hinj, he.once id hid]

theorem labels_nodup (he : e.Whole) : (e.blocks.values.map Block.label).Nodup := by
  have hids : (e.blocks.values.map Block.id).Nodup := by
    rw [Table.values_map_of_own fun key b hb => (he.blockIds key b hb).symm]
    exact e.blocks.nodup
  rw [List.Nodup, List.pairwise_map] at hids ⊢
  exact hids.imp fun hid hlabel => hid (Block.id_eq_of_label_eq hlabel)

theorem count_labels (he : e.Whole) {blocks : List WrittenBlock}
    (h : e.written margin = .ok blocks) {id : BlockId} (hid : id ∈ e.blocks.keys) :
    ∃ label, e.blockReference id = .ok label ∧
      (blocks.map WrittenBlock.label).count label = 1 := by
  obtain ⟨b, hb⟩ := Table.exists_find?_of_mem_keys hid
  refine ⟨b.label, by rw [blockReference, hb], ?_⟩
  rw [labels_of_written h]
  exact List.count_eq_one_of_mem he.labels_nodup
    (List.mem_map_of_mem (Table.mem_values_of_find? hb))

/-- The row of a stored instruction, spelled out, shows ids of stored instructions. -/
theorem reference_mem_keys (he : e.Whole) {i : Instruction} (hi : i ∈ e.instructions.values)
    {row : List Piece} (hrow : e.Spells i.row row) {id : InstrId} (hid : .reference id ∈ row) :
    id ∈ e.instructions.keys := by
  rcases hrow.reference_mem hid with hid | ⟨j, hj, rfl⟩
  · obtain ⟨a, hstore⟩ := Instruction.reference_mem_row.mp hid
    refine he.operands i hi id ?_
    rw [Instruction.operands, hstore]
    exact List.mem_cons_self
  · obtain ⟨key, hj⟩ := Table.mem_values_iff.mp hj
    rw [← he.instructionIds key j hj]
    exact Table.mem_keys_of_mem hj

theorem label_mem_keys (he : e.Whole) {i : Instruction} (hi : i ∈ e.instructions.values)
    {row : List Piece} (hrow : e.Spells i.row row) {id : BlockId} (hid : .label id ∈ row) :
    id ∈ e.blocks.keys :=
  he.targets i hi id (Instruction.label_mem_row.mp (hrow.label_mem hid))

end Whole

/-- In the dump of an executable that passes the validation, whatever destination took it, no two
labels are equal, and a line shows nothing that is ambiguous: spelled out, it is a row in which
every id is in the id column of exactly one line and every block has the text of exactly one
label. -/
theorem dump_unambiguous {σ : Type} [Sink σ] {sink : σ} (h : e.validate.success = true)
    (hdump : (e.dump margin sink).2 = none) :
    ∃ blocks, e.written margin = .ok blocks ∧
      e.format margin = .ok (String.join (blocks.flatMap WrittenBlock.chunks)) ∧
      (blocks.map WrittenBlock.label).Nodup ∧
      ∀ line ∈ blocks.flatMap WrittenBlock.lines, ∃ i ∈ e.instructions.values, ∃ row body,
        line = i.columns margin ++ body ∧ e.Spells i.row row ∧
        Piece.textOfAll e row = .ok body ∧ e.Unambiguous margin blocks row := by
  have he := validate_success_iff.mp h
  obtain ⟨blocks, hblocks⟩ := written_of_dump hdump
  refine ⟨blocks, hblocks, format_of_written hblocks, ?_, ?_⟩
  · rw [labels_of_written hblocks]
    exact he.labels_nodup
  · intro line hline
    obtain ⟨id, -, i, hfound, hline⟩ := exists_of_mem_right (lines_of_written hblocks) hline
    obtain ⟨body, hbody, hline⟩ := bind_eq_ok.mp hline
    cases hline
    have hi := Table.mem_values_of_find? hfound
    obtain ⟨row, hrow, htext⟩ := body_shows_row hbody
    refine ⟨i, hi, row, body, rfl, hrow, htext, ?_, ?_⟩
    · intro id hid
      exact he.count_idColumns hblocks (he.reference_mem_keys hi hrow hid)
    · intro id hid
      exact he.count_labels hblocks (he.label_mem_keys hi hrow hid)

/-- Blocks whose hints are equal, or look like labels, and ids that begin alike. -/
def namesakes : Executable where
  blocks := .ofList
    [(1, ⟨1, "loop", [1, 12, 123, 2]⟩), (12, ⟨12, "loop", [3, 4]⟩), (2, ⟨2, "loop_1", [5]⟩)]
  instructions := .ofList
    [(1, ⟨1, some (.ofPlain .bool), 1, .runtime, .phi [⟨12, 12⟩]⟩),
     (12, ⟨12, some (.ofPlain .boundFn), 3, .static (.boundFn "f" 123), .const⟩),
     (123, ⟨123, some (.ofPlain .boundFn), 0, .static (.boundFn "g" 1), .const⟩),
     (2, ⟨2, none, 0, .runtime, .condBr 12 12 2 false⟩),
     (3, ⟨3, none, 0, .runtime, .storePtr 1 12⟩), (4, ⟨4, none, 0, .runtime, .br 1 false⟩),
     (5, ⟨5, none, 0, .runtime, .unreachable⟩)]

theorem dump_namesakes :
    namesakes.validate.success = true ∧ (namesakes.dump 2 BufferSink.empty).2 = none ∧
      ∃ blocks, namesakes.written 2 = .ok blocks ∧
        namesakes.format 2 = .ok (String.join (blocks.flatMap WrittenBlock.chunks)) ∧
        blocks.map WrittenBlock.label = ["loop_1", "loop_12", "loop_1_2"] ∧
        (blocks.flatMap WrittenBlock.lines).map (idColumn 2) =
          ["#1", "#12", "#123", "#2", "#3", "#4", "#5"] ∧
        (blocks.flatMap WrittenBlock.lines)[4]? =
          some "  #3  | (unknown)   | - | *#1 = bound f to bound g to #1" ∧
        (blocks.map WrittenBlock.label).Nodup ∧
        ∀ line ∈ blocks.flatMap WrittenBlock.lines, ∃ i ∈ namesakes.instructions.values,
          ∃ row body, line = i.columns 2 ++ body ∧ namesakes.Spells i.row row ∧
            Piece.textOfAll namesakes row = .ok body ∧
            namesakes.Unambiguous 2 blocks row := by
  have hvalid : namesakes.validate.success = true := by decide
  have hdump : (namesakes.dump 2 BufferSink.empty).2 = none := rfl
  obtain ⟨blocks, hblocks, hformat, hnodup, hlines⟩ := dump_unambiguous hvalid hdump
  have hlabels : blocks.map WrittenBlock.label = ["loop_1", "loop_12", "loop_1_2"] :=
    (labels_of_written hblocks).trans (by decide +kernel)
  have hcolumns : (blocks.flatMap WrittenBlock.lines).map (idColumn 2) =
      ["#1", "#12", "#123", "#2", "#3", "#4", "#5"] :=
    ((validate_success_iff.mp hvalid).idColumns hblocks).trans (by decide +kernel)
  have hstore : (blocks.flatMap WrittenBlock.lines)[4]? =
      some "  #3  | (unknown)   | - | *#1 = bound f to bound g to #1" := by
    cases hblocks
    decide +kernel
  exact ⟨hvalid, hdump, blocks, hblocks, hformat, hlabels, hcolumns, hstore, hnodup, hlines⟩

end Executable

end BlockIr
