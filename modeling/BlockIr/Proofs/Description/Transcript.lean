import BlockIr.Proofs.Description.Load
import BlockIr.Proofs.Issues

/-!
# What a loaded executable follows

A load that finds no problem leaves nothing out and changes no order. Its blocks are the block
entries of the document, the lists of the blocks are the instruction entries inside them, and
the arena is all instruction entries from the first to the last, each under its own id.

* `sections`: the entries of a document, as they stand there.
* `Progress.Follows`: what has been read while no problem was found.
* `follows_of_load`, `transcribes_of_load`: what a load that succeeds has read, and its executable,
  have the entries of the document.
* `load_whole`: so a validation finds nothing wrong with it but operands and targets that lead
  nowhere, and phis without edges.
-/

namespace BlockIr

/-! ## Runs that collect complaints -/

section Clean

variable {σ α : Type} {step : σ → α → σ} (Clean : σ → Prop)

theorem clean_of_foldl (hclean : ∀ s x, Clean (step s x) → Clean s) {xs : List α} {s : σ}
    (hend : Clean (xs.foldl step s)) : Clean s := by
  induction xs generalizing s with
  | nil => exact hend
  | cons x xs ih => exact hclean s x (ih hend)

/-- What every step without a complaint preserves holds after a run without one. -/
theorem foldl_of_clean {P : List α → σ → Prop} (hclean : ∀ s x, Clean (step s x) → Clean s)
    (hstep : ∀ done s x, P done s → Clean (step s x) → P (done ++ [x]) (step s x))
    {xs done : List α} {s : σ} (h : P done s) (hend : Clean (xs.foldl step s)) :
    P (done ++ xs) (xs.foldl step s) := by
  induction xs generalizing done s with
  | nil =>
    rw [List.append_nil]
    exact h
  | cons x xs ih =>
    have hx : Clean (step s x) := clean_of_foldl Clean hclean hend
    have hrest := ih (hstep done s x h hx) hend
    rwa [List.append_assoc] at hrest

end Clean

namespace Description

/-! ## The entries of a document -/

/-- A block entry and the instruction entries inside it. -/
structure Section where
  head : Node
  items : List Node

def sectionOf (node : Node) : Reading Section := do
  return ⟨node, ← node.listOrEmpty "instructions"⟩

/-- The entries of a document, in its order. -/
def sections (root : Node) : Reading (List Section) := do
  (← blockNodes root).mapM sectionOf

/-- A block, under its key, that is the one of a section. -/
structure Section.Gives (s : Section) (entry : BlockId × Block) : Prop where
  key : entry.1 = entry.2.id
  id : s.head.id "id" = .ok entry.2.id
  name : s.head.textOr "name" defaultHint = .ok entry.2.nameHint
  listed : List.Forall₂ (fun item id => item.id "id" = .ok id) s.items entry.2.instructions

/-- An instruction, under its key, that is the one of an entry. Its use count may have been
counted. -/
structure ItemGives (types : TypeTable) (item : Node) (entry : InstrId × Instruction) : Prop where
  key : entry.1 = entry.2.id
  id : item.id "id" = .ok entry.2.id
  instruction : ∃ read, readEntry types (fun _ => false) item = .ok read ∧
    entry.2 = { read.instruction with refCount := entry.2.refCount }

/-- An executable has the entries of some sections, in their order, and nothing else. -/
structure Transcribes (types : TypeTable) (ss : List Section) (e : Executable) : Prop where
  blocks : List.Forall₂ Section.Gives ss e.blocks.entries
  arena : List.Forall₂ (ItemGives types) (ss.flatMap Section.items) e.instructions.entries

/-! ## Reading entries that are not taken -/

section Entries

variable {types : TypeTable} {node : Node}

/-- Which ids are taken only decides whether an entry is refused. -/
theorem readEntry_eq_ok {taken : InstrId → Bool} {entry : Entry} :
    readEntry types taken node = .ok entry ↔
      readEntry types (fun _ => false) node = .ok entry ∧
        node.id "id" = .ok entry.instruction.id ∧ taken entry.instruction.id = false := by
  simp only [readEntry, bind_eq_ok, readFreshId_eq_ok]
  constructor
  · rintro ⟨reader, hreader, id, ⟨hid, hfresh⟩, type, htype, countNode, hcount, valueNode, hnode,
      refCount, hrefCount, value, hvalue, operation, hoperation, h⟩
    cases h
    exact ⟨⟨reader, hreader, id, ⟨hid, trivial⟩, type, htype, countNode, hcount, valueNode, hnode,
      refCount, hrefCount, value, hvalue, operation, hoperation, rfl⟩, hid, hfresh⟩
  · rintro ⟨⟨reader, hreader, id, -, rest⟩, hid, hfresh⟩
    obtain ⟨type, htype, countNode, hcount, valueNode, hnode, refCount, hrefCount, value, hvalue,
      operation, hoperation, h⟩ := rest
    cases h
    exact ⟨reader, hreader, id, ⟨hid, hfresh⟩, type, htype, countNode, hcount, valueNode, hnode,
      refCount, hrefCount, value, hvalue, operation, hoperation, rfl⟩

end Entries

/-! ## Reading block by block -/

namespace Progress

/-- An entry that was read, under its key. -/
structure Reads (types : TypeTable) (item : Node) (entry : InstrId × Entry) : Prop where
  key : entry.1 = entry.2.instruction.id
  id : item.id "id" = .ok entry.2.instruction.id
  reading : readEntry types (fun _ => false) item = .ok entry.2

/-- The blocks and entries are those of some sections. -/
structure Follows (types : TypeTable) (ss : List Section) (p : Progress) : Prop where
  blocks : List.Forall₂ Section.Gives ss p.blocks.entries
  entries : List.Forall₂ (Reads types) (ss.flatMap Section.items) p.entries.entries

/-- The blocks and entries are those of some block entries. -/
def FollowsNodes (types : TypeTable) (nodes : List Node) (p : Progress) : Prop :=
  ∃ ss, nodes.mapM sectionOf = .ok ss ∧ Follows types ss p

/-- Some items of a block have been read after the progress `before`. -/
structure FollowsIn (types : TypeTable) (before : Progress) (items : List Node)
    (state : Progress × List InstrId) : Prop where
  blocks : state.1.blocks = before.blocks
  listed : List.Forall₂ (fun item id => item.id "id" = .ok id) items state.2
  entries : ∃ new, state.1.entries.entries = before.entries.entries ++ new ∧
    List.Forall₂ (Reads types) items new

variable {types : TypeTable} {p before : Progress} {ss : List Section} {node : Node}

/-- An instruction entry that gives no problem is stored and listed. -/
theorem readInstruction_of_clean {state : Progress × List InstrId}
    (h : (readInstruction types node state).1.errors = []) :
    state.1.errors = [] ∧ ∃ entry, readEntry types state.1.entries.contains node = .ok entry ∧
      readInstruction types node state =
        ({ state.1 with entries := state.1.entries.insert entry.instruction.id entry },
          state.2 ++ [entry.instruction.id]) := by
  obtain ⟨p, listed⟩ := state
  simp only [readInstruction] at h ⊢
  cases hentry : readEntry types p.entries.contains node with
  | error e =>
    rw [hentry] at h
    exact absurd h (by simp [report])
  | ok entry =>
    rw [hentry] at h
    exact ⟨h, entry, rfl, rfl⟩

theorem FollowsIn.readInstruction {items : List Node} {state : Progress × List InstrId}
    (h : FollowsIn types before items state)
    (hclean : (readInstruction types node state).1.errors = []) :
    FollowsIn types before (items ++ [node]) (readInstruction types node state) := by
  obtain ⟨-, entry, hentry, heq⟩ := readInstruction_of_clean hclean
  obtain ⟨hreading, hid, hfresh⟩ := readEntry_eq_ok.mp hentry
  obtain ⟨new, hentries, hnew⟩ := h.entries
  rw [heq]
  refine ⟨h.blocks, List.rel_append h.listed (.cons hid .nil), ?_⟩
  refine ⟨new ++ [(entry.instruction.id, entry)], ?_, ?_⟩
  · have hnotMem := Table.contains_eq_false_iff.mp hfresh
    simp only
    rw [Table.entries_insert_of_notMem hnotMem, hentries, List.append_assoc]
  · exact List.rel_append hnew (.cons ⟨rfl, hid, hreading⟩ .nil)

theorem followsIn_readInstructions {items : List Node}
    (hclean : (p.readInstructions types items).1.errors = []) :
    p.errors = [] ∧ FollowsIn types p items (p.readInstructions types items) := by
  have hback (state : Progress × List InstrId) (node : Node)
      (h : (readInstruction types node state).1.errors = []) : state.1.errors = [] :=
    (readInstruction_of_clean h).1
  have hnone : FollowsIn types p [] (p, []) := ⟨rfl, .nil, [], by simp, .nil⟩
  constructor
  · exact clean_of_foldl (fun state : Progress × List InstrId => state.1.errors = []) hback hclean
  · exact foldl_of_clean (fun state : Progress × List InstrId => state.1.errors = []) hback
      (fun _ _ _ h hclean => h.readInstruction hclean) hnone hclean

/-- A block entry that gives no problem is stored with what it lists. -/
theorem readBlock_of_clean (h : (p.readBlock types node).errors = []) :
    ∃ id nameHint items, readBlockHead p.blocks.contains node = .ok (id, nameHint) ∧
      node.listOrEmpty "instructions" = .ok items ∧
      (p.readInstructions types items).1.errors = [] ∧
      p.readBlock types node =
        { (p.readInstructions types items).1 with
          blocks := (p.readInstructions types items).1.blocks.insert id
            ⟨id, nameHint, (p.readInstructions types items).2⟩ } := by
  unfold readBlock at h ⊢
  cases hhead : readBlockHead p.blocks.contains node with
  | error e =>
    rw [hhead] at h
    exact absurd h (by simp [report])
  | ok head =>
    rw [hhead] at h
    cases hitems : node.listOrEmpty "instructions" with
    | error e =>
      rw [hitems] at h
      exact absurd h (by simp [report])
    | ok items =>
      rw [hitems] at h
      exact ⟨head.1, head.2, items, rfl, rfl, h, rfl⟩

theorem Follows.readBlock {items : List Node} (h : Follows types ss p)
    (hitems : node.listOrEmpty "instructions" = .ok items)
    (hclean : (p.readBlock types node).errors = []) :
    Follows types (ss ++ [⟨node, items⟩]) (p.readBlock types node) := by
  obtain ⟨id, nameHint, items', hhead, hitems', hread, heq⟩ := readBlock_of_clean hclean
  cases hitems.symm.trans hitems'
  obtain ⟨-, hin⟩ := followsIn_readInstructions hread
  obtain ⟨_, hfresh, hhead⟩ := bind_eq_ok.mp hhead
  obtain ⟨_, hname, hhead⟩ := bind_eq_ok.mp hhead
  cases hhead
  obtain ⟨hid, hfresh⟩ := readFreshId_eq_ok.mp hfresh
  obtain ⟨new, hentries, hnew⟩ := hin.entries
  have hnotMem : id ∉ (p.readInstructions types items).1.blocks.keys := by
    rw [hin.blocks]
    exact Table.contains_eq_false_iff.mp hfresh
  rw [heq]
  constructor
  · simp only
    rw [Table.entries_insert_of_notMem hnotMem, hin.blocks]
    exact List.rel_append h.blocks (.cons ⟨rfl, hid, hname, hin.listed⟩ .nil)
  · simp only
    rw [hentries, List.flatMap_append, List.flatMap_singleton]
    exact List.rel_append h.entries hnew

theorem FollowsNodes.readBlock {nodes : List Node} (h : FollowsNodes types nodes p)
    (hclean : (p.readBlock types node).errors = []) :
    FollowsNodes types (nodes ++ [node]) (p.readBlock types node) := by
  obtain ⟨ss, hss, h⟩ := h
  obtain ⟨_, _, items, -, hitems, -, -⟩ := readBlock_of_clean hclean
  have hsection : sectionOf node = .ok ⟨node, items⟩ := by
    rw [sectionOf, hitems]
    rfl
  exact ⟨ss ++ [⟨node, items⟩], mapM_concat hss hsection, h.readBlock hitems hclean⟩

theorem followsNodes_readBlocks {nodes : List Node} {errors : List LoadError}
    (hclean : ((Progress.start errors).readBlocks types nodes).errors = []) :
    FollowsNodes types nodes ((Progress.start errors).readBlocks types nodes) := by
  have hback (p : Progress) (node : Node) (h : (p.readBlock types node).errors = []) :
      p.errors = [] := by
    obtain ⟨_, _, items, -, -, hread, -⟩ := readBlock_of_clean h
    exact (followsIn_readInstructions hread).1
  have hnone : FollowsNodes types [] (Progress.start errors) := ⟨[], rfl, .nil, .nil⟩
  exact foldl_of_clean (fun p => p.errors = []) hback (fun _ _ _ h hclean => h.readBlock hclean)
    hnone hclean

/-- Counting the uses changes no entry but for its use count. -/
theorem Reads.gives {item : Node} {entry : InstrId × Entry} (h : Reads types item entry) :
    ItemGives types item (entry.1, p.counted entry.2) := by
  obtain ⟨n, hn⟩ := p.counted_eq entry.2
  rw [hn]
  exact ⟨h.key, h.id, entry.2, h.reading, rfl⟩

theorem Follows.executable (h : Follows types ss p) : Transcribes types ss p.executable where
  blocks := h.blocks
  arena := List.forall₂_map_right_iff.mpr (h.entries.imp fun _ _ hread => hread.gives)

end Progress

/-! ## The executable -/

/-- What has been read when a load succeeds are the entries of the document. -/
theorem follows_of_load {doc : Doc} {e : Executable} (h : (load doc).value = some e) :
    ∃ ss, sections (.root doc) = .ok ss ∧
      Progress.Follows (readTypes (.root doc)).1 ss (readProgress (.root doc)) ∧
      e = (readProgress (.root doc)).executable := by
  obtain ⟨herrors, rfl⟩ := progress_of_load h
  have hclean : (readProgress (.root doc)).errors = [] := (List.append_eq_nil_iff.mp herrors).1
  unfold readProgress at hclean ⊢
  dsimp only at hclean ⊢
  unfold sections
  cases hnodes : blockNodes (.root doc) with
  | error e =>
    rw [hnodes] at hclean
    exact absurd hclean (by simp [Progress.start])
  | ok nodes =>
    rw [hnodes] at hclean
    obtain ⟨ss, hss, hfollows⟩ := Progress.followsNodes_readBlocks hclean
    exact ⟨ss, hss, hfollows, rfl⟩

/-- The executable of a document has the entries of the document. -/
theorem transcribes_of_load {doc : Doc} {e : Executable} (h : (load doc).value = some e) :
    ∃ ss, sections (.root doc) = .ok ss ∧ Transcribes (readTypes (.root doc)).1 ss e := by
  obtain ⟨ss, hss, hfollows, rfl⟩ := follows_of_load h
  exact ⟨ss, hss, hfollows.executable⟩

section Whole

variable {types : TypeTable} {ss : List Section} {e : Executable}

theorem Transcribes.blockIds (h : Transcribes types ss e) {key : BlockId} {b : Block}
    (hb : (key, b) ∈ e.blocks.entries) : key = b.id := by
  obtain ⟨s, -, hs⟩ := exists_of_mem_right h.blocks hb
  exact hs.key

/-- Every instruction of a description is listed once. -/
theorem Described.count_listings (he : Described e) {key : InstrId}
    (hkey : key ∈ e.instructions.keys) : e.listings.count key = 1 := by
  have hlistings : e.listings = e.instructions.keys := he.arena.symm
  rw [hlistings]
  exact List.count_eq_one_of_mem e.instructions.nodup hkey

/-- What is wrong with the executable of a document, if anything is. -/
theorem code_of_violates (he : Described e) (h : Transcribes types ss e) {code : String}
    (hcode : e.Violates code) : code ∈ ["IRV006", "IRV007", "IRV008"] := by
  cases hcode with
  | duplicateBlock hb hb' hkey hid =>
    exact absurd ((h.blockIds hb).trans (hid.trans (h.blockIds hb').symm)) hkey
  | misplacedBlock hb hkey => exact absurd (h.blockIds hb) hkey
  | misplacedInstruction hi hkey => exact absurd (he.own _ _ hi).symm hkey
  | orphan hkey hnone =>
    have hone := he.count_listings hkey
    omega
  | shared hkey hmany =>
    have hone := he.count_listings hkey
    omega
  | unknownListed hb hid habsent =>
    rw [he.arena] at habsent
    exact absurd (List.mem_flatMap.mpr ⟨_, hb, hid⟩) habsent
  | missingOperand | missingReference | missingTarget | emptyPhi => decide

/-- An error in the report on a description is an operand or a target that leads nowhere, or a
phi without edges. -/
theorem error_of_described (he : Described e) (h : Transcribes types ss e) {issue : Issue}
    (hissue : issue ∈ e.validate.errors) :
    (∃ key operand, issue = .missingOperand key operand) ∨
      (∃ key target, issue = .missingTarget key target) ∨ ∃ key, issue = .emptyPhi key := by
  have hfault : e.Faults issue := Executable.mem_errors_validate.mp hissue
  have hcode : issue.code ∈ ["IRV006", "IRV007", "IRV008"] := code_of_violates he h hfault.violates
  cases hfault with
  | duplicateBlock | misplacedBlock | unknownListed | orphan | shared | misplacedInstruction =>
    exact absurd hcode (by simp [Issue.code])
  | missingOperand => exact .inl ⟨_, _, rfl⟩
  | missingReference hi hname habsent =>
    have hreference := Value.mem_references_iff.mpr hname
    exact absurd (he.references _ (Table.mem_values_iff.mpr ⟨_, hi⟩) _ hreference) habsent
  | missingTarget => exact .inr (.inl ⟨_, _, rfl⟩)
  | emptyPhi => exact .inr (.inr ⟨_, rfl⟩)

end Whole

/-- The executable of a document is the document, entry by entry. A validation finds no entry of
it misplaced, unlisted or listed twice and no name of a value that leads nowhere: its errors are
operands and targets that lead nowhere, and phis without edges. -/
theorem load_whole {doc : Doc} {e : Executable} (h : (load doc).value = some e) :
    (∃ ss, sections (.root doc) = .ok ss ∧ Transcribes (readTypes (.root doc)).1 ss e) ∧
    (∀ issue ∈ e.validate.errors, (message issue).code ∈ ["IRV006", "IRV007", "IRV008"]) ∧
    ∀ issue ∈ e.validate.errors,
      (∃ key operand, issue = .missingOperand key operand) ∨
        (∃ key target, issue = .missingTarget key target) ∨ ∃ key, issue = .emptyPhi key := by
  have he := described_of_load h
  obtain ⟨ss, hss, htranscribes⟩ := transcribes_of_load h
  refine ⟨⟨ss, hss, htranscribes⟩, ?_, ?_⟩
  · intro issue hissue
    exact code_of_violates he htranscribes (Executable.mem_errors_validate.mp hissue).violates
  · intro issue hissue
    exact error_of_described he htranscribes hissue

/-- Blocks and instructions out of the order of their ids, with all that may be wrong. -/
def looseEnds : Doc :=
  .map
    [("blocks", .list
      [.map
        [("id", .int 7), ("name", .text "late"),
         ("instructions", .list
          [.map [("id", .int 4), ("kind", .text "load_ptr"), ("ptr", .int 9)],
           .map [("id", .int 1), ("kind", .text "const"), ("type", .text "(bound fn)"),
            ("value", .map [("fn", .text "f"), ("firstArg", .int 5)])],
           .map [("id", .int 2), ("kind", .text "br"), ("dest", .int 8)]])],
       .map
        [("id", .int 3),
         ("instructions", .list [.map [("id", .int 5), ("kind", .text "phi")]])]])]

theorem load_whole_looseEnds :
    ∃ e, (load looseEnds).value = some e ∧ e.blocks.keys = [7, 3] ∧
      e.instructions.keys = [4, 1, 2, 5] ∧
      e.validate.errors = [.missingOperand 4 9, .missingTarget 2 8, .emptyPhi 5] ∧
      ∃ ss, sections (.root looseEnds) = .ok ss ∧
        Transcribes (readTypes (.root looseEnds)).1 ss e := by
  have hload : (load looseEnds).value.isSome = true := by decide +kernel
  obtain ⟨e, he⟩ := Option.isSome_iff_exists.mp hload
  have hkeys : (load looseEnds).value.map (fun e => (e.blocks.keys, e.instructions.keys)) =
      some ([7, 3], [4, 1, 2, 5]) := by decide +kernel
  have herrors : (load looseEnds).value.map (fun e => e.validate.errors) =
      some [.missingOperand 4 9, .missingTarget 2 8, .emptyPhi 5] := by decide +kernel
  simp only [he, Option.map_some, Option.some.injEq, Prod.mk.injEq] at hkeys herrors
  exact ⟨e, he, hkeys.1, hkeys.2, herrors, (load_whole he).1⟩

end Description

end BlockIr
