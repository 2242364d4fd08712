import BlockIr.Proofs.Description.Names

/-!
# The lines of the dump of a description

A dump has one line for every block and one for every listed instruction, as long as the
description has no line break in its texts and keys. A load does not look for line breaks, and a
dump shows a name as it is, so a name with a line break is shown on two lines.

* `not_showsBreak_of_load`: descriptions in which no name can be broken.
* `load_lines`: the lines of a dump.
-/

namespace BlockIr

theorem Executable.Inlines.mem {e : Executable} {row : List Piece} {j : Instruction}
    (h : e.Inlines row j) : j ∈ e.instructions.values := by
  induction h with
  | operand _ hi _ => exact Table.mem_values_of_find? hi
  | receiver _ _ _ _ ih => exact ih

theorem Instruction.Named.not_anyBroken {i : Instruction}
    (h : i.Named fun s => ¬ Text.Broken s) :
    ¬ Text.Broken i.typeName ∧ ¬ Text.AnyBroken i.names ∧ ¬ Text.AnyBroken i.constantNames := by
  have hvalue : ¬ Text.AnyBroken i.constantNames := by
    rintro ⟨name, hname, hbroken⟩
    exact h.value name hname hbroken
  refine ⟨?_, ?_, hvalue⟩
  · unfold typeName
    split
    · exact h.type _ ‹_›
    · decide
  · unfold names
    split
    · exact hvalue
    · rintro ⟨name, hname, hbroken⟩
      exact h.operation name hname hbroken

namespace Description

variable {doc : Doc} {e : Executable}

/-- Without a line break in the description, there is none in what is shown. -/
theorem not_showsBreak_of_load (h : (load doc).value = some e)
    (hdoc : ∀ s, doc.Mentions s → ¬ Text.Broken s) : ¬ e.ShowsBreak := by
  have hbuiltin : ∀ t ∈ Ty.builtins, ¬ Text.Broken t.name := by decide +kernel
  obtain ⟨hhints, hnamed⟩ := names_of_load h hdoc hbuiltin (by decide)
  rintro (⟨b, hb, hbroken⟩ | ⟨id, -, i, hi, hbroken⟩)
  · exact hhints b hb hbroken
  · obtain ⟨htype, hnames, -⟩ := (hnamed i (Table.mem_values_of_find? hi)).not_anyBroken
    rcases hbroken with hbroken | hbroken | ⟨j, hj, hbroken⟩
    · exact htype hbroken
    · exact hnames hbroken
    · exact (hnamed j hj.mem).not_anyBroken.2.2 hbroken

/-- What a dump of a description writes is, block by block, the label and then the lines of the
instructions that are listed. Split at its line breaks, the dump gives back exactly that if and
only if no name that is shown has a line break, and otherwise it has more lines. A description
without a line break in its texts and keys has no such name. -/
theorem load_lines (h : (load doc).value = some e) {margin : Nat} {text : String}
    (htext : e.format margin = .ok text) :
    ∃ blocks, e.written margin = .ok blocks ∧
      text = String.join (blocks.flatMap WrittenBlock.chunks) ∧
      List.Forall₂ (fun b w => w.label = b.label ∧
        List.Forall₂ (fun id line => ∃ i, e.instructions.find? id = some i ∧
          i.line e margin = .ok line) b.instructions w.lines) e.blocks.values blocks ∧
      (Text.lines text = blocks.flatMap WrittenBlock.rows ++ [""] ↔ ¬ e.ShowsBreak) ∧
      ((Text.lines text).length = e.blocks.values.length + e.listings.length + 1 ↔
        ¬ e.ShowsBreak) ∧
      ((∀ s, doc.Mentions s → ¬ Text.Broken s) → ¬ e.ShowsBreak) := by
  obtain ⟨blocks, hwritten, rfl⟩ := Executable.written_of_format htext
  refine ⟨blocks, hwritten, rfl, ?_, Executable.lines_of_written_eq hwritten,
    Executable.length_lines_of_written hwritten, not_showsBreak_of_load h⟩
  exact (mapM_eq_ok hwritten).imp fun _ _ hw => Executable.writtenBlock_eq_ok hw

/-- Two blocks, one of them without a name. -/
def twoBlocks : Doc :=
  .map
    [("blocks", .list
      [.map
        [("id", .int 0), ("name", .text "entry"),
         ("instructions", .list
          [.map [("id", .int 0), ("kind", .text "const"), ("type", .text "u8"),
            ("value", .int 7)],
           .map [("id", .int 1), ("kind", .text "br"), ("dest", .int 1)]])],
       .map
        [("id", .int 1),
         ("instructions", .list
          [.map [("id", .int 2), ("kind", .text "return"), ("operand", .int 0)]])]])]

/-- Two labels and three lines, each line behind a margin of two blanks. -/
theorem load_lines_twoBlocks :
    ∃ e text blocks, (load twoBlocks).value = some e ∧ e.format 2 = .ok text ∧
      e.written 2 = .ok blocks ∧ ¬ e.ShowsBreak ∧
      Text.lines text = blocks.flatMap WrittenBlock.rows ++ [""] ∧
      Text.lines text =
        ["entry_0:", "  #0  | u8          | 1 | 7", "  #1  | (unknown)   | - | goto block_1",
          "block_1:", "  #2  | (unknown)   | - | return 7", ""] := by
  have hload : (load twoBlocks).value.isSome = true := by decide +kernel
  obtain ⟨e, he⟩ := Option.isSome_iff_exists.mp hload
  have hshown : (load twoBlocks).value.map (fun e =>
      ((e.format 2).toOption.map Text.lines, e.blocks.values.length, e.listings.length)) =
      some (some
        ["entry_0:", "  #0  | u8          | 1 | 7", "  #1  | (unknown)   | - | goto block_1",
          "block_1:", "  #2  | (unknown)   | - | return 7", ""], 2, 3) := by
    decide +kernel
  simp only [he, Option.map_some, Option.some.injEq, Prod.mk.injEq] at hshown
  obtain ⟨hlines, hblocks, hlistings⟩ := hshown
  obtain ⟨text, htext, hlines⟩ := Option.map_eq_some_iff.mp hlines
  have htext := toOption_eq_some.mp htext
  obtain ⟨blocks, hwritten, -, -, hsplit, hcount, -⟩ := load_lines he htext
  have hunbroken : ¬ e.ShowsBreak := by
    rw [← hcount, hlines, hblocks, hlistings]
    rfl
  exact ⟨e, text, blocks, he, htext, hwritten, hunbroken, hsplit.mpr hunbroken, hlines⟩

/-- An assembly template of two lines. -/
def longTemplate : Doc :=
  .map
    [("blocks", .list
      [.map
        [("id", .int 0), ("name", .text "entry"),
         ("instructions", .list
          [.map [("id", .int 0), ("kind", .text "asm"), ("type", .text "void"),
            ("template", .text "nop\nnop")],
           .map [("id", .int 1), ("kind", .text "unreachable"),
            ("type", .text "unreachable")]])]])]

/-- One block with two instructions is shown on four lines. -/
theorem load_lines_longTemplate :
    ∃ e text, (load longTemplate).value = some e ∧ e.format 0 = .ok text ∧
      e.blocks.values.length = 1 ∧ e.listings.length = 2 ∧
      Text.lines text =
        ["entry_0:", "#0  | void        | 0 | asm (\"nop", "nop\") :  :  : )",
          "#1  | unreachable | - | unreachable", ""] := by
  have hload : (load longTemplate).value.isSome = true := by decide +kernel
  obtain ⟨e, he⟩ := Option.isSome_iff_exists.mp hload
  have hshown : (load longTemplate).value.map (fun e =>
      ((e.format 0).toOption.map Text.lines, e.blocks.values.length, e.listings.length)) =
      some (some
        ["entry_0:", "#0  | void        | 0 | asm (\"nop", "nop\") :  :  : )",
          "#1  | unreachable | - | unreachable", ""], 1, 2) := by
    decide +kernel
  simp only [he, Option.map_some, Option.some.injEq, Prod.mk.injEq] at hshown
  obtain ⟨hlines, hblocks, hlistings⟩ := hshown
  obtain ⟨text, htext, hlines⟩ := Option.map_eq_some_iff.mp hlines
  exact ⟨e, text, he, toOption_eq_some.mp htext, hblocks, hlistings, hlines⟩

end Description

end BlockIr
