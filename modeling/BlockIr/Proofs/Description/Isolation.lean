import BlockIr.Proofs.Description.Difference
import BlockIr.Proofs.Description.Load
import BlockIr.Proofs.Description.Matching
import BlockIr.Proofs.Description.Resolution

/-!
# Entries that are not read

An instruction entry with a problem is reported and left out. Nothing else comes of it: the next
entry is read as if the one before had not been there, whatever types were resolved for it.

* `Visit`: an instruction entry that a load comes to, and what stands around it.
* `Visit.readProgress_eq`: a load is what comes before an entry, the entry, and what comes after.
* `Visit.finish_prepend`: problems that were reported before change nothing after them.
* `load_isolates`: what an entry with a problem does to a load.
-/

namespace BlockIr

namespace Description

/-! ## Problems that were reported before -/

namespace Progress

/-- The same progress, with problems that were met before it. -/
def prepend (errors : List LoadError) (p : Progress) : Progress :=
  { p with errors := errors ++ p.errors }

variable {types : TypeTable} {errors : List LoadError} {p : Progress}

theorem report_eq_prepend (e : LoadError) :
    p.report e = ({ p with errors := [] } : Progress).prepend (p.errors ++ [e]) := by
  rw [report, prepend, List.append_nil]

theorem readInstruction_prepend (state : Progress × List InstrId) (node : Node) :
    readInstruction types node (state.map (prepend errors) id) =
      (readInstruction types node state).map (prepend errors) id := by
  obtain ⟨p, listed⟩ := state
  rw [Prod.map_apply, id, readInstruction, readInstruction]
  simp only [prepend]
  cases readEntry types p.entries.contains node with
  | error e => simp [report, prepend]
  | ok entry => rfl

theorem readItems_prepend (nodes : List Node) (state : Progress × List InstrId) :
    nodes.foldl (fun state node => readInstruction types node state)
        (state.map (prepend errors) id) =
      (nodes.foldl (fun state node => readInstruction types node state) state).map
        (prepend errors) id :=
  List.foldl_hom _ readInstruction_prepend

theorem readBlock_prepend (p : Progress) (node : Node) :
    (p.prepend errors).readBlock types node = (p.readBlock types node).prepend errors := by
  unfold readBlock
  have hblocks : (p.prepend errors).blocks = p.blocks := rfl
  rw [hblocks]
  cases readBlockHead p.blocks.contains node with
  | error e => simp [report, prepend]
  | ok head =>
    cases node.listOrEmpty "instructions" with
    | error e => simp [report, prepend]
    | ok nodes =>
      have hitems := @readItems_prepend types errors nodes (p, [])
      simp only [readInstructions]
      rw [Prod.map_apply, id] at hitems
      rw [hitems]
      rfl

theorem readBlocks_prepend (p : Progress) (nodes : List Node) :
    (p.prepend errors).readBlocks types nodes = (p.readBlocks types nodes).prepend errors :=
  List.foldl_hom _ readBlock_prepend

theorem allErrors_prepend : (p.prepend errors).allErrors = errors ++ p.allErrors :=
  List.append_assoc _ _ _

end Progress

/-! ## Entries that a load comes to -/

/-- What has been read after the first block entries of a description. -/
def progressAfter (root : Node) (nodes : List Node) : Progress :=
  (Progress.start (readTypes root).2).readBlocks (readTypes root).1 nodes

/-- An instruction entry that a load comes to, and what stands around it. -/
structure Visit (root : Node) where
  earlierBlocks : List Node
  block : Node
  laterBlocks : List Node
  blocks_eq : blockNodes root = .ok (earlierBlocks ++ block :: laterBlocks)
  /-- The id and the name hint of the block, which is not refused. -/
  head : BlockId × String
  head_eq : readBlockHead (progressAfter root earlierBlocks).blocks.contains block = .ok head
  earlier : List Node
  node : Node
  later : List Node
  items_eq : block.listOrEmpty "instructions" = .ok (earlier ++ node :: later)

namespace Visit

variable {root : Node} (v : Visit root)

def place : Place :=
  [.key "blocks", .item v.earlierBlocks.length, .key "instructions", .item v.earlier.length]

/-- What has been read before the entry, and what its block lists so far. -/
def before : Progress × List InstrId :=
  (progressAfter root v.earlierBlocks).readInstructions (readTypes root).1 v.earlier

def reading : Reading Entry := readEntry (readTypes root).1 v.before.1.entries.contains v.node

def problem : Option LoadError :=
  match v.reading with
  | .error e => some e
  | .ok _ => none

def after : Progress × List InstrId :=
  Progress.readInstruction (readTypes root).1 v.node v.before

/-- The rest of the load, with a type table. It does not come back to the entry. -/
def finish (types : TypeTable) (state : Progress × List InstrId) : Progress :=
  let (p, instructions) :=
    v.later.foldl (fun state node => Progress.readInstruction types node state) state
  Progress.readBlocks types
    { p with blocks := p.blocks.insert v.head.1 ⟨v.head.1, v.head.2, instructions⟩ } v.laterBlocks

/-- The load if the entry were not there, with the places of all others as they are. -/
def skipped : Progress := v.finish (readTypes root).1 v.before

/-- The same, but for the problems before the entry. -/
def rest : Progress :=
  v.finish (readTypes root).1 ({ v.before.1 with errors := [] }, v.before.2)

theorem readProgress_eq : readProgress root = v.finish (readTypes root).1 v.after := by
  have hblock : (progressAfter root v.earlierBlocks).readBlock (readTypes root).1 v.block =
      let state := v.later.foldl
        (fun state node => Progress.readInstruction (readTypes root).1 node state) v.after
      { state.1 with
        blocks := state.1.blocks.insert v.head.1 ⟨v.head.1, v.head.2, state.2⟩ } := by
    rw [Progress.readBlock, v.head_eq, v.items_eq]
    simp only [Progress.readInstructions, List.foldl_append, List.foldl_cons]
    rfl
  unfold readProgress
  simp only [v.blocks_eq]
  unfold Progress.readBlocks
  rw [List.foldl_append, List.foldl_cons]
  exact congrArg (fun p => v.laterBlocks.foldl _ p) hblock

theorem finish_prepend (types : TypeTable) (errors : List LoadError)
    (state : Progress × List InstrId) :
    v.finish types (state.map (Progress.prepend errors) id) =
      (v.finish types state).prepend errors := by
  unfold finish
  rw [Progress.readItems_prepend]
  generalize v.later.foldl _ state = state'
  obtain ⟨p, instructions⟩ := state'
  let blocks := p.blocks.insert v.head.1 ⟨v.head.1, v.head.2, instructions⟩
  exact Progress.readBlocks_prepend { p with blocks } v.laterBlocks

/-- An entry gives one problem at most. -/
theorem errors_after : v.after.1.errors = v.before.1.errors ++ v.problem.toList := by
  unfold after problem reading
  obtain ⟨p, listed⟩ := v.before
  simp only [Progress.readInstruction]
  cases readEntry (readTypes root).1 p.entries.contains v.node with
  | error e => rfl
  | ok entry => simp

theorem after_of_problem {e : LoadError} (h : v.problem = some e) :
    v.after = (v.before.1.report e, v.before.2) := by
  have h : v.reading = .error e := by
    unfold problem at h
    split at h <;> cases h
    assumption
  unfold reading at h
  unfold after
  revert h
  obtain ⟨p, listed⟩ := v.before
  intro h
  simp only [Progress.readInstruction, h]

/-- After an entry with a problem, the rest of the load is what it is without the entry. -/
theorem readProgress_of_problem {e : LoadError} (h : v.problem = some e) :
    readProgress root = v.rest.prepend (v.before.1.errors ++ [e]) := by
  rw [v.readProgress_eq, v.after_of_problem h, rest, ← v.finish_prepend, Prod.map_apply,
    Progress.report_eq_prepend]
  rfl

theorem skipped_eq : v.skipped = v.rest.prepend v.before.1.errors := by
  have hsame : v.before = (({ v.before.1 with errors := [] }, v.before.2) :
      Progress × List InstrId).map (Progress.prepend v.before.1.errors) id := by
    simp [Progress.prepend]
  rw [rest, ← v.finish_prepend, ← hsame, skipped]

theorem finish_congr {t t' : TypeTable} (h : ∀ node, t'.lookup node = t.lookup node) :
    v.finish t' = v.finish t := by
  have hinstruction : Progress.readInstruction t' = Progress.readInstruction t := by
    funext node state
    simp only [Progress.readInstruction, readEntry_congr h]
  have hblock : Progress.readBlock t' = Progress.readBlock t := by
    funext p node
    simp only [Progress.readBlock, Progress.readInstructions, hinstruction]
  funext state
  simp only [finish, Progress.readBlocks, hinstruction, hblock]

end Visit

/-! ## Documents that differ at an entry -/

/-- In a document that differs in one entry, a load comes to the entry by the same way. -/
theorem Visit.same_around {R : Doc → Doc → Prop} {doc doc' : Doc} {v : Visit (.root doc)}
    {v' : Visit (.root doc')} (h : doc.DiffersAt R v.place doc') (hplace : v'.place = v.place) :
    readTypes (.root doc') = readTypes (.root doc) ∧ v'.before = v.before ∧
      v'.finish = v.finish := by
  obtain ⟨hblocksLength, hitemsLength⟩ : v'.earlierBlocks.length = v.earlierBlocks.length ∧
      v'.earlier.length = v.earlier.length := by
    simpa [place] using hplace
  have hroot : Node.DiffersAt R v.place (.root doc) (.root doc') := ⟨rfl, h⟩
  have htypes : readTypes (.root doc') = readTypes (.root doc) :=
    readTypes_congr rfl (hroot.field?_of_ne (by decide))
  obtain ⟨blocks, blocks', hfield, hfield', hblocks⟩ := hroot.field?
  have hlist := v.blocks_eq
  have hlist' := v'.blocks_eq
  rw [blockNodes, Node.field, hfield] at hlist
  rw [blockNodes, Node.field, hfield'] at hlist'
  -- The block entries before and after agree, and so do the heads of the two in between.
  obtain ⟨hearlierBlocks, hlaterBlocks, hblock⟩ := hblocks.of_list hlist hlist' hblocksLength
  have hhead := v'.head_eq
  rw [hearlierBlocks, progressAfter, htypes, hblock.readBlockHead] at hhead
  have hhead : v'.head = v.head := Except.ok.inj (hhead.symm.trans v.head_eq)
  obtain ⟨items, items', hfield, hfield', hitems⟩ := hblock.field?
  have hlist := v.items_eq
  have hlist' := v'.items_eq
  rw [Node.listOrEmpty, hfield] at hlist
  rw [Node.listOrEmpty, hfield'] at hlist'
  obtain ⟨hearlier, hlater, -⟩ := hitems.of_list hlist hlist' hitemsLength
  refine ⟨htypes, ?_, ?_⟩
  · rw [before, before, progressAfter, progressAfter, htypes, hearlierBlocks, hearlier]
  · funext types state
    rw [finish, finish, hlater, hhead, hlaterBlocks]

/-! ## Loads of documents with a faulty entry -/

theorem Progress.errors_outcome (p : Progress) : p.outcome.errors = p.allErrors := by
  have hall (errors : List LoadError) :
      (Outcome.err errors : Outcome LoadError Executable).errors = errors :=
    List.filter_eq_self.mpr fun _ _ => rfl
  rw [outcome]
  split
  · rename_i hnone
    rw [List.isEmpty_iff.mp hnone]
    rfl
  · exact hall _

theorem Visit.errors_load {doc : Doc} (v : Visit (.root doc)) :
    (load doc).errors = (readProgress (.root doc)).allErrors := by
  rw [load_of_blocks v.blocks_eq, Progress.errors_outcome]

/-- Two documents that differ in one entry, which has a problem in both, have the same problems
but for that one. The entry gives no other problem, nor does any entry. It leaves nothing behind:
the load goes on as if it were not there. Nor do the types that were resolved for it: a table that
remembers them gives the same answers, and so the same rest of the load. -/
theorem load_isolates {doc doc' : Doc} {v : Visit (.root doc)} {v' : Visit (.root doc')}
    (h : doc.DiffersAt (fun _ _ => True) v.place doc') (hplace : v'.place = v.place)
    {e e' : LoadError} (he : v.problem = some e) (he' : v'.problem = some e') :
    (∃ before after, (load doc).errors = before ++ e :: after ∧
      (load doc').errors = before ++ e' :: after ∧ v.skipped.allErrors = before ++ after) ∧
    v.after = (v.before.1.report e, v.before.2) ∧
    (readProgress (.root doc)).blocks = v.skipped.blocks ∧
    (readProgress (.root doc)).entries = v.skipped.entries ∧
    (∀ w : Visit (.root doc),
      readProgress (.root doc) = w.finish (readTypes (.root doc)).1 w.after ∧
      w.after.1.errors = w.before.1.errors ++ w.problem.toList) ∧
    ∀ types, (readTypes (.root doc)).1.Remembers types →
      (∀ node, types.lookup node = (readTypes (.root doc)).1.lookup node) ∧
      v.finish types = v.finish (readTypes (.root doc)).1 := by
  obtain ⟨htypes, hbefore, hfinish⟩ := Visit.same_around h hplace
  have hload := v.readProgress_of_problem he
  have hload' := v'.readProgress_of_problem he'
  have hrest : v'.rest = v.rest := by rw [Visit.rest, Visit.rest, hbefore, hfinish, htypes]
  rw [hrest, hbefore] at hload'
  refine ⟨⟨v.before.1.errors, v.rest.allErrors, ?_, ?_, ?_⟩, v.after_of_problem he, ?_, ?_, ?_, ?_⟩
  · rw [v.errors_load, hload, Progress.allErrors_prepend, List.append_assoc]
    rfl
  · rw [v'.errors_load, hload', Progress.allErrors_prepend, List.append_assoc]
    rfl
  · rw [v.skipped_eq, Progress.allErrors_prepend]
  · rw [hload, v.skipped_eq]
    rfl
  · rw [hload, v.skipped_eq]
    rfl
  · intro w
    exact ⟨w.readProgress_eq, w.errors_after⟩
  · intro types htypes
    have hlookup := htypes.lookup (readTypes_faithful (.root doc))
    exact ⟨hlookup, v.finish_congr hlookup⟩

/-- A block whose middle entry is followed by one with the id 1. -/
def retried (entry : Doc) : Doc :=
  .map
    [("types", .map [("pair", .map [("kind", .text "array"), ("child", .text "bool"),
        ("length", .int 2)])]),
     ("blocks", .list
      [.map
        [("id", .int 0),
         ("instructions", .list
          [.map [("id", .int 0), ("kind", .text "ret")],
           entry,
           .map [("id", .int 1), ("kind", .text "const"), ("type", .text "(bound fn)"),
            ("value", .map [("fn", .text "f"), ("firstArg", .int 9)])]])]])]

/-- A pair of one element, which is refused after its type was resolved. -/
def shortPair : Doc :=
  .map [("id", .int 1), ("kind", .text "const"), ("type", .text "pair"),
    ("value", .list [.bool true])]

def strayPointer : Doc := .map [("id", .int 1), ("kind", .text "load_ptr"), ("ptr", .text "p")]

/-- The way to the middle entry of `retried`. -/
def retriedVisit (entry : Doc) : Visit (.root (retried entry)) where
  earlierBlocks := []
  block := _
  laterBlocks := []
  blocks_eq := rfl
  head := (0, "block")
  head_eq := rfl
  earlier := [_]
  node := _
  later := [_]
  items_eq := rfl

theorem retried_differsAt (entry entry' : Doc) :
    (retried entry).DiffersAt (fun _ _ => True) (retriedVisit entry).place (retried entry') :=
  @Doc.DiffersAt.key _ "blocks" [("types", _)] _ _ _ _ (by decide)
    (@Doc.DiffersAt.item _ [] _ _ _ _
      (@Doc.DiffersAt.key _ "instructions" [("id", _)] _ _ _ _ (by decide)
        (@Doc.DiffersAt.item _ [_] _ _ _ _ (.here trivial))))

/-- Whichever way the entry is refused, the next one has its id. -/
theorem load_isolates_retried :
    ∃ place place' before after,
      (load (retried shortPair)).errors =
        before ++ .fault place (.elementCount "pair" 2 1) :: after ∧
      (load (retried strayPointer)).errors = before ++ .fault place' (.expected .number) :: after ∧
      (readProgress (.root (retried shortPair))).entries.keys = [1] ∧
      (readProgress (.root (retried strayPointer))).entries.keys = [1] := by
  have hshort : (retriedVisit shortPair).problem =
      some (.fault ((retriedVisit shortPair).place ++ [.key "value"])
        (.elementCount "pair" 2 1)) := by
    decide +kernel
  have hstray : (retriedVisit strayPointer).problem =
      some (.fault ((retriedVisit strayPointer).place ++ [.key "ptr"]) (.expected .number)) := by
    decide +kernel
  have hkeys : (readProgress (.root (retried shortPair))).entries.keys = [1] ∧
      (readProgress (.root (retried strayPointer))).entries.keys = [1] := by decide +kernel
  obtain ⟨⟨before, after, h, h', -⟩, -⟩ :=
    load_isolates (retried_differsAt shortPair strayPointer) rfl hshort hstray
  exact ⟨_, _, before, after, h, h', hkeys⟩

end Description

end BlockIr
