import Mathlib.Data.List.Forall2
import BlockIr.Proofs.Description.Contents
import BlockIr.Proofs.Description.Difference
import BlockIr.Proofs.Description.Matching
import BlockIr.Proofs.Description.Resolution

/-!
# Descriptions in another order

Types, blocks and the instructions of a block may be declared in any order. What a name stands
for, what an entry says and how often an instruction is used do not depend on it, so a description
loads if and only if any other order of it does, and the executables differ in their order alone.

* `Doc.Reordered`: the same declarations in another order.
* `Executable.Alike`: the same blocks and instructions under every id.
* `Assembles.alike`: the executables of contents in another order are alike.
* `load_reordered`: what a load gives for another order.
-/

namespace BlockIr

/-! ## Documents in another order -/

namespace Doc

/-- Lists of the same items. -/
inductive SameItems : Doc → Doc → Prop where
  | list {xs ys : List Doc} : xs.Perm ys → SameItems (.list xs) (.list ys)

/-- Mappings of the same entries, under distinct keys. -/
inductive SameEntries : Doc → Doc → Prop where
  | map {xs ys : List (String × Doc)} : (xs.map Prod.fst).Nodup → xs.Perm ys →
    SameEntries (.map xs) (.map ys)

/-- Descriptions of the same declarations: the types, the blocks or the instructions of a block
are put in another order, any number of times. -/
inductive Reordered : Doc → Doc → Prop where
  | refl (doc : Doc) : Reordered doc doc
  | types {doc doc' : Doc} : DiffersAt SameEntries [.key "types"] doc doc' → Reordered doc doc'
  | blocks {doc doc' : Doc} : DiffersAt SameItems [.key "blocks"] doc doc' → Reordered doc doc'
  | instructions {doc doc' : Doc} (n : Nat) :
    DiffersAt SameItems [.key "blocks", .item n, .key "instructions"] doc doc' →
    Reordered doc doc'
  | trans {doc doc' doc'' : Doc} : Reordered doc doc' → Reordered doc' doc'' →
    Reordered doc doc''

theorem SameItems.symm {d d' : Doc} (h : SameItems d d') : SameItems d' d := by
  cases h with
  | list hperm => exact .list hperm.symm

theorem SameEntries.symm {d d' : Doc} (h : SameEntries d d') : SameEntries d' d := by
  cases h with
  | map hkeys hperm => exact .map ((hperm.map Prod.fst).nodup hkeys) hperm.symm

theorem Reordered.symm {doc doc' : Doc} (h : Reordered doc doc') : Reordered doc' doc := by
  induction h with
  | refl doc => exact .refl doc
  | types h => exact .types (h.symm fun _ _ => SameEntries.symm)
  | blocks h => exact .blocks (h.symm fun _ _ => SameItems.symm)
  | instructions n h => exact .instructions n (h.symm fun _ _ => SameItems.symm)
  | trans _ _ ih ih' => exact ih'.trans ih

/-- All blocks, and the instructions of all of them, may be put in another order at once. -/
theorem Reordered.of_blocks {before after : List (String × Doc)} {bs bs' bs'' : List Doc}
    (hkey : "blocks" ∉ before.map Prod.fst)
    (hblocks : List.Forall₂ (fun b b' => b = b' ∨ DiffersAt SameItems [.key "instructions"] b b')
      bs bs') (hperm : bs'.Perm bs'') :
    Reordered (.map (before ++ ("blocks", .list bs) :: after))
      (.map (before ++ ("blocks", .list bs'') :: after)) := by
  -- One block after the other; the blocks in `done` have their new order already.
  have hsteps : ∀ done, Reordered (.map (before ++ ("blocks", .list (done ++ bs)) :: after))
      (.map (before ++ ("blocks", .list (done ++ bs')) :: after)) := by
    clear hperm
    induction hblocks with
    | nil => exact fun done => .refl _
    | @cons b b' bs bs' hb _ ih =>
      intro done
      have hrest := ih (done ++ [b'])
      rw [List.append_assoc, List.append_assoc] at hrest
      rcases hb with rfl | hb
      · exact hrest
      · exact .trans (.instructions done.length (.key hkey (.item hb))) hrest
  exact .trans (hsteps []) (.blocks (.key hkey (.here (.list hperm))))

end Doc

/-! ## Executables in another order -/

/-- Blocks that list the same instructions. -/
structure Block.Alike (b b' : Block) : Prop where
  id : b'.id = b.id
  nameHint : b'.nameHint = b.nameHint
  instructions : b.instructions.Perm b'.instructions

/-- Executables with the same instructions and blocks under every id. -/
structure Executable.Alike (e e' : Executable) : Prop where
  instructions : ∀ id, e'.instructions.find? id = e.instructions.find? id
  blocks : ∀ id, Option.Rel Block.Alike (e.blocks.find? id) (e'.blocks.find? id)

theorem Block.Alike.refl (b : Block) : b.Alike b := ⟨rfl, rfl, .refl _⟩

theorem Block.Alike.trans {b b' b'' : Block} (h : b.Alike b') (h' : b'.Alike b'') :
    b.Alike b'' :=
  ⟨h'.id.trans h.id, h'.nameHint.trans h.nameHint, h.instructions.trans h'.instructions⟩

namespace Executable.Alike

variable {e e' e'' : Executable}

theorem refl (e : Executable) : e.Alike e where
  instructions _ := rfl
  blocks id := by
    cases e.blocks.find? id with
    | none => exact .none
    | some b => exact .some (.refl b)

theorem trans (h : e.Alike e') (h' : e'.Alike e'') : e.Alike e'' where
  instructions id := (h'.instructions id).trans (h.instructions id)
  blocks id := by
    have hfirst := h.blocks id
    have hsecond := h'.blocks id
    generalize e.blocks.find? id = b at hfirst ⊢
    generalize e'.blocks.find? id = b' at hfirst hsecond
    generalize e''.blocks.find? id = b'' at hsecond ⊢
    cases hfirst with
    | none => exact hsecond
    | some hb =>
      cases hsecond with
      | some hb' => exact .some (hb.trans hb')

end Executable.Alike

/-! ## Contents in another order -/

/-- Block entries that say the same of the same instructions. -/
structure BlockContent.Alike (c c' : BlockContent) : Prop where
  id : c'.id = c.id
  nameHint : c'.nameHint = c.nameHint
  items : c.items.Perm c'.items

theorem BlockContent.Alike.refl (c : BlockContent) : c.Alike c := ⟨rfl, rfl, .refl _⟩

theorem BlockContent.Alike.block {c c' : BlockContent} (h : c.Alike c') : c.block.Alike c'.block :=
  ⟨h.id, h.nameHint, h.items.map _⟩

theorem map_id_of_forall₂ {cs cs' : List BlockContent}
    (h : List.Forall₂ BlockContent.Alike cs cs') :
    cs.map BlockContent.id = cs'.map BlockContent.id := by
  induction h with
  | nil => rfl
  | cons hc _ ih => rw [List.map_cons, List.map_cons, hc.id, ih]

theorem flatMap_items_of_forall₂ {cs cs' : List BlockContent}
    (h : List.Forall₂ BlockContent.Alike cs cs') :
    (cs.flatMap BlockContent.items).Perm (cs'.flatMap BlockContent.items) := by
  induction h with
  | nil => exact .refl _
  | cons hc _ ih =>
    rw [List.flatMap_cons, List.flatMap_cons]
    exact hc.items.append ih

/-- Contents that say the same in another order. -/
def ContentsAlike (cs cs' : List BlockContent) : Prop :=
  ∃ middle, List.Forall₂ BlockContent.Alike cs middle ∧ middle.Perm cs'

namespace ContentsAlike

variable {cs cs' : List BlockContent}

theorem of_perm (h : cs.Perm cs') : ContentsAlike cs cs' :=
  ⟨cs, List.forall₂_same.mpr fun c _ => .refl c, h⟩

theorem ids (h : ContentsAlike cs cs') :
    (cs.map BlockContent.id).Perm (cs'.map BlockContent.id) := by
  obtain ⟨middle, halike, hperm⟩ := h
  rw [map_id_of_forall₂ halike]
  exact hperm.map _

theorem items (h : ContentsAlike cs cs') :
    (cs.flatMap BlockContent.items).Perm (cs'.flatMap BlockContent.items) := by
  obtain ⟨middle, halike, hperm⟩ := h
  exact (flatMap_items_of_forall₂ halike).trans (hperm.flatMap_right _)

theorem exists_of_mem (h : ContentsAlike cs cs') {c : BlockContent} (hc : c ∈ cs) :
    ∃ c' ∈ cs', c.Alike c' := by
  obtain ⟨middle, halike, hperm⟩ := h
  obtain ⟨c', hc', hsame⟩ := exists_of_mem_right halike.flip hc
  exact ⟨c', hperm.mem_iff.mp hc', hsame⟩

end ContentsAlike

namespace Description

theorem usesIn_perm {xs ys : List ItemContent} (h : xs.Perm ys) : usesIn xs = usesIn ys := by
  funext id
  exact (h.flatMap_right _).count_eq id

theorem among_of_alike {cs cs' : List BlockContent} (h : ContentsAlike cs cs') :
    ItemContent.among (cs.flatMap BlockContent.items) =
      ItemContent.among (cs'.flatMap BlockContent.items) := by
  funext x
  rw [ItemContent.among, ItemContent.among, usesIn_perm h.items]

namespace Assembles

variable {cs cs' : List BlockContent} {e e' : Executable}

theorem perm_instructions (h : Assembles cs e) (halike : ContentsAlike cs cs') :
    e.instructions.entries.Perm ((cs'.flatMap BlockContent.items).map fun x =>
      (x.id, x.among (cs'.flatMap BlockContent.items))) := by
  rw [h.instructions, among_of_alike halike]
  exact halike.items.map _

/-- Contents in another order have an executable as well. -/
theorem exists_reordered (h : Assembles cs e) (halike : ContentsAlike cs cs') :
    ∃ e', Assembles cs' e' := by
  let blocks' := cs'.map fun c => (c.id, c.block)
  let instructions' := (cs'.flatMap BlockContent.items).map fun x =>
    (x.id, x.among (cs'.flatMap BlockContent.items))
  have hblocks : (blocks'.map Prod.fst).Nodup := by
    rw [List.map_map]
    exact halike.ids.nodup (h.blockKeys ▸ e.blocks.nodup)
  have hperm : e.instructions.entries.Perm instructions' := h.perm_instructions halike
  have hkeys : e.instructions.keys.Perm (instructions'.map Prod.fst) := hperm.map Prod.fst
  have hinstructions : (instructions'.map Prod.fst).Nodup := hkeys.nodup e.instructions.nodup
  refine ⟨⟨⟨blocks', hblocks⟩, ⟨instructions', hinstructions⟩⟩, rfl, rfl, ?_⟩
  intro x hx r hr
  have hmem := h.references x (halike.items.mem_iff.mpr hx) r hr
  exact hkeys.mem_iff.mp hmem

/-- It has the same blocks and instructions. -/
theorem alike (h : Assembles cs e) (h' : Assembles cs' e') (halike : ContentsAlike cs cs') :
    e.Alike e' := by
  constructor
  · apply Table.find?_of_perm
    rw [h'.instructions]
    exact h.perm_instructions halike
  · intro id
    cases hfind : e.blocks.find? id with
    | none =>
      have habsent : id ∉ e'.blocks.keys := by
        have habsent := Table.find?_eq_none_iff.mp hfind
        rw [h.blockKeys] at habsent
        rw [h'.blockKeys]
        exact fun hmem => habsent (halike.ids.mem_iff.mpr hmem)
      rw [Table.find?_eq_none_iff.mpr habsent]
      exact .none
    | some b =>
      have hmem := Table.find?_eq_some_iff.mp hfind
      rw [h.blocks] at hmem
      obtain ⟨c, hc, heq⟩ := List.mem_map.mp hmem
      cases heq
      obtain ⟨c', hc', hsame⟩ := halike.exists_of_mem hc
      rw [← hsame.id, h'.find?_block hc']
      exact .some hsame.block

end Assembles

/-! ## Reading in another order -/

section Moved

variable {t t' : TypeTable} {x y : Node}

/-- Tables of the same declarations answer alike at nodes with the same document. -/
theorem moved_tables (ht : t.IsFaithful) (ht' : t'.IsFaithful)
    (hdeclared : ∀ name, t.declarations.lookup name = t'.declarations.lookup name) :
    Matching.moved.Tables t t' := by
  have hlookup {t t' : TypeTable} (ht : t.IsFaithful) (ht' : t'.IsFaithful)
      (hdeclared : ∀ name, t.declarations.lookup name = t'.declarations.lookup name) {x y : Node}
      (hdoc : y.doc = x.doc) {type : Ty} (h : t.lookup x = .ok type) : t'.lookup y = .ok type := by
    obtain ⟨name, chain, hname, hchain⟩ := (TypeTable.lookup_ok_iff ht).mp h
    have hname' := (Matching.text (M := Matching.moved) hdoc).ok_of_moved hname
    exact (TypeTable.lookup_ok_iff ht').mpr ⟨name, chain, hname', hchain.congr hdeclared⟩
  intro x y hdoc
  cases hx : t.lookup x with
  | ok type =>
    rw [hlookup ht ht' hdeclared hdoc hx]
    exact .ok rfl
  | error e =>
    cases hy : t'.lookup y with
    | error e' => exact .error trivial
    | ok type =>
      have hback := hlookup ht' ht (fun name => (hdeclared name).symm) hdoc.symm hy
      cases hx.symm.trans hback

theorem readItem_moved (ht : Matching.moved.Tables t t') (hdoc : y.doc = x.doc) :
    Matching.moved.Alike Eq (readItem t x) (readItem t' y) := by
  have hentry := Matching.entry ht (fun _ => false) (show Matching.moved.node x y from hdoc)
  unfold readItem
  generalize readEntry t (fun _ => false) x = r at hentry
  generalize readEntry t' (fun _ => false) y = r' at hentry
  cases hentry with
  | error he => exact .error he
  | ok hsame =>
    refine .ok ?_
    rw [Entry.content, Entry.content, hsame.instruction, hsame.counted]

theorem readContent_moved (ht : Matching.moved.Tables t t') (hdoc : y.doc = x.doc) :
    Matching.moved.Alike Eq (readContent t x) (readContent t' y) := by
  have hnode : Matching.moved.node x y := hdoc
  refine (Matching.blockHead _ hnode).bindEq fun head => ?_
  refine (Matching.listOrEmpty hnode).bind fun items items' hitems => ?_
  refine (Matching.Alike.mapMEq hitems fun _ _ hitem => readItem_moved ht hitem).bindEq fun _ => ?_
  exact .ok rfl

/-- What is read from the items of a list does not depend on their order. -/
theorem mapM_of_sameItems {α : Type} {read : Node → Reading α}
    (hread : ∀ x y : Node, y.doc = x.doc → ∀ a, read x = .ok a → read y = .ok a)
    (h : Doc.SameItems x.doc y.doc) {items : List Node} (hitems : x.list = .ok items)
    {as : List α} (has : items.mapM read = .ok as) :
    ∃ items' as', y.list = .ok items' ∧ items'.mapM read = .ok as' ∧ as.Perm as' := by
  rw [Node.docs_of_list hitems] at h
  obtain ⟨ys, hy, hperm⟩ : ∃ ys, y.doc = .list ys ∧ (items.map Node.doc).Perm ys := by
    generalize y.doc = d at h
    cases h with
    | list hperm => exact ⟨_, rfl, hperm⟩
  obtain ⟨items', hitems'⟩ : ∃ items', y.list = .ok items' := by
    rw [Node.list, hy]
    exact ⟨_, rfl⟩
  have hdocs := Node.docs_of_list hitems'
  rw [hy] at hdocs
  obtain rfl := Doc.list.inj hdocs
  -- In another order the items stand at other places, where they read the same.
  have hreads : List.Forall₂ (fun d a => ∀ place, read ⟨d, place⟩ = .ok a)
      (items.map Node.doc) as :=
    List.forall₂_map_left_iff.mpr
      ((mapM_eq_ok has).imp fun x a hx place => hread x ⟨x.doc, place⟩ rfl a hx)
  obtain ⟨as', hreads', hperm'⟩ := List.perm_comp_forall₂ hperm.symm hreads
  have hitems : List.Forall₂ (fun x a => read x = .ok a) items' as' :=
    (List.forall₂_map_left_iff.mp hreads').imp fun x a hx => hx x.place
  exact ⟨items', as', hitems', mapM_of_forall₂ hitems, hperm'.symm⟩

end Moved

/-! ## Loads in another order -/

/-- Whatever the first document loads to, the second one loads to something alike. -/
def LoadsAlike (doc doc' : Doc) : Prop :=
  ∀ e, (load doc).value = some e → ∃ e', (load doc').value = some e' ∧ e.Alike e'

theorem loadsAlike_of_contents {doc doc' : Doc}
    (htypes : (readTypes (.root doc)).2 = [] → (readTypes (.root doc')).2 = [])
    (hcontents : (readTypes (.root doc)).2 = [] → ∀ cs, contents (.root doc) = .ok cs →
      ∃ cs', contents (.root doc') = .ok cs' ∧ ContentsAlike cs cs') : LoadsAlike doc doc' := by
  intro e h
  obtain ⟨hclean, cs, hcs, hassembles⟩ := load_value_iff.mp h
  obtain ⟨cs', hcs', halike⟩ := hcontents hclean cs hcs
  obtain ⟨e', hassembles'⟩ := hassembles.exists_reordered halike
  exact ⟨e', load_value_iff.mpr ⟨htypes hclean, cs', hcs', hassembles'⟩,
    hassembles.alike hassembles' halike⟩

section Steps

variable {doc doc' : Doc}

/-- What is read does not depend on where it stands. -/
theorem moved_self (root : Node) : Matching.moved.Tables (readTypes root).1 (readTypes root).1 :=
  moved_tables (readTypes_faithful root) (readTypes_faithful root) fun _ => rfl

theorem readContent_of_sameItems {t : TypeTable} (ht : Matching.moved.Tables t t) {x y : Node}
    (h : Node.DiffersAt Doc.SameItems [.key "instructions"] x y) {c : BlockContent}
    (hc : readContent t x = .ok c) : ∃ c', readContent t y = .ok c' ∧ c.Alike c' := by
  obtain ⟨⟨id, nameHint⟩, hhead, hc⟩ := bind_eq_ok.mp hc
  obtain ⟨items, hitems, hc⟩ := bind_eq_ok.mp hc
  obtain ⟨xs, hxs, hc⟩ := bind_eq_ok.mp hc
  cases hc
  obtain ⟨z, z', hfield, hfield', hbelow⟩ := h.field?
  have hsame : Doc.SameItems z.doc z'.doc := by
    cases hbelow.doc with
    | here hsame => exact hsame
  rw [Node.listOrEmpty, hfield] at hitems
  obtain ⟨items', ys, hitems', hys, hperm⟩ := mapM_of_sameItems
    (fun _ _ hdoc _ => (readItem_moved ht hdoc).ok_of_moved) hsame hitems hxs
  refine ⟨⟨id, nameHint, ys⟩, ?_, rfl, rfl, hperm⟩
  rw [readContent, h.readBlockHead, hhead, ok_bind]
  simp only [Node.listOrEmpty, hfield', ok_bind]
  rw [hitems', ok_bind, hys]
  rfl

theorem loadsAlike_of_instructions {n : Nat}
    (h : doc.DiffersAt Doc.SameItems [.key "blocks", .item n, .key "instructions"] doc') :
    LoadsAlike doc doc' := by
  have hroot : Node.DiffersAt Doc.SameItems _ (.root doc) (.root doc') := ⟨rfl, h⟩
  have htypes : readTypes (.root doc') = readTypes (.root doc) :=
    readTypes_congr rfl (hroot.field?_of_ne (by decide))
  refine loadsAlike_of_contents (fun hclean => htypes ▸ hclean) ?_
  intro _ cs hcs
  obtain ⟨z, z', hfield, hfield', hbelow⟩ := hroot.field?
  obtain ⟨before, y, y', after, -, hlist, hlist', hblock⟩ := hbelow.list
  obtain ⟨nodes, hnodes, hcs⟩ := bind_eq_ok.mp hcs
  rw [blockNodes, Node.field, hfield] at hnodes
  cases hlist.symm.trans hnodes
  rw [List.mapM_append, List.mapM_cons] at hcs
  obtain ⟨earlier, hearlier, hcs⟩ := bind_eq_ok.mp hcs
  obtain ⟨rest, hrest, hcs⟩ := bind_eq_ok.mp hcs
  obtain ⟨c, hc, hrest⟩ := bind_eq_ok.mp hrest
  obtain ⟨later, hlater, hrest⟩ := bind_eq_ok.mp hrest
  cases hrest
  cases hcs
  obtain ⟨c', hc', halike⟩ := readContent_of_sameItems (moved_self _) hblock hc
  have hrefl (cs : List BlockContent) : List.Forall₂ BlockContent.Alike cs cs :=
    List.forall₂_same.mpr fun c _ => .refl c
  refine ⟨earlier ++ c' :: later, ?_, _, List.rel_append (hrefl _) (.cons halike (hrefl _)),
    .refl _⟩
  rw [contents, blockNodes, Node.field, hfield', htypes]
  simp only [ok_bind, pure_eq_ok, hlist', List.mapM_append, List.mapM_cons, hearlier, hc', hlater]

theorem loadsAlike_of_blocks (h : doc.DiffersAt Doc.SameItems [.key "blocks"] doc') :
    LoadsAlike doc doc' := by
  have hroot : Node.DiffersAt Doc.SameItems _ (.root doc) (.root doc') := ⟨rfl, h⟩
  have htypes : readTypes (.root doc') = readTypes (.root doc) :=
    readTypes_congr rfl (hroot.field?_of_ne (by decide))
  refine loadsAlike_of_contents (fun hclean => htypes ▸ hclean) ?_
  intro _ cs hcs
  obtain ⟨z, z', hfield, hfield', hbelow⟩ := hroot.field?
  have hsame : Doc.SameItems z.doc z'.doc := by
    cases hbelow.doc with
    | here hsame => exact hsame
  obtain ⟨nodes, hnodes, hcs⟩ := bind_eq_ok.mp hcs
  rw [blockNodes, Node.field, hfield] at hnodes
  obtain ⟨nodes', cs', hnodes', hcs', hperm⟩ := mapM_of_sameItems
    (fun _ _ hdoc _ => (readContent_moved (moved_self _) hdoc).ok_of_moved) hsame hnodes hcs
  refine ⟨cs', ?_, .of_perm hperm⟩
  rw [contents, blockNodes, Node.field, hfield', htypes]
  simp only [ok_bind, pure_eq_ok, hnodes', hcs']

/-! ## Types in another order -/

theorem lookup_of_perm {α : Type} {xs ys : List (String × α)} (hkeys : (xs.map Prod.fst).Nodup)
    (h : xs.Perm ys) (key : String) : xs.lookup key = ys.lookup key := by
  have hkeys' : (ys.map Prod.fst).Nodup := (h.map Prod.fst).nodup hkeys
  cases hx : xs.lookup key with
  | some a =>
    obtain ⟨before, after, rfl, -⟩ := List.lookup_eq_some_iff.mp hx
    exact (lookup_of_mem hkeys' (h.mem_iff.mp (by simp))).symm
  | none =>
    rw [List.lookup_eq_none_iff] at hx
    exact (List.lookup_eq_none_iff.mpr fun entry hentry => hx entry (h.mem_iff.mpr hentry)).symm

theorem read_of_sameEntries {z z' : Node} (h : Node.DiffersAt Doc.SameEntries [] z z') :
    ∃ ds ds', TypeTable.read (some z) = .ok (.ofDeclarations ds) ∧
      TypeTable.read (some z') = .ok (.ofDeclarations ds') ∧ (ds.map Prod.fst).Nodup ∧
      ds.Perm ds' := by
  obtain ⟨d, place⟩ := z
  obtain ⟨d', place'⟩ := z'
  obtain ⟨rfl, hdoc⟩ := h
  cases hdoc with
  | here hsame =>
    cases hsame with
    | map hkeys hperm =>
      refine ⟨_, _, rfl, rfl, ?_, hperm.map _⟩
      rw [List.map_map]
      exact hkeys

theorem loadsAlike_of_types (h : doc.DiffersAt Doc.SameEntries [.key "types"] doc') :
    LoadsAlike doc doc' := by
  have hroot : Node.DiffersAt Doc.SameEntries _ (.root doc) (.root doc') := ⟨rfl, h⟩
  obtain ⟨z, z', hfield, hfield', hbelow⟩ := hroot.field?
  obtain ⟨ds, ds', hread, hread', hkeys, hperm⟩ := read_of_sameEntries hbelow
  have hlookup (name : String) : ds.lookup name = ds'.lookup name := lookup_of_perm hkeys hperm name
  have htypes : (do TypeTable.read (← (Node.root doc).field? "types")) =
      .ok (TypeTable.ofDeclarations ds) := by
    rw [hfield]
    exact hread
  have htypes' : (do TypeTable.read (← (Node.root doc').field? "types")) =
      .ok (TypeTable.ofDeclarations ds') := by
    rw [hfield']
    exact hread'
  apply loadsAlike_of_contents
  · rw [errors_readTypes, errors_readTypes]
    rintro ⟨types, htypes₁, hchains⟩
    cases htypes.symm.trans htypes₁
    refine ⟨_, htypes', fun name hname => ?_⟩
    obtain ⟨chain, type, hchain⟩ := hchains name ((hperm.map Prod.fst).mem_iff.mpr hname)
    exact ⟨chain, type, hchain.congr hlookup⟩
  · intro _ cs hcs
    obtain ⟨hdeclared, hfaithful, -⟩ := declared_readTypes htypes
    obtain ⟨hdeclared', hfaithful', -⟩ := declared_readTypes htypes'
    have hmoved : Matching.moved.Tables (readTypes (.root doc)).1 (readTypes (.root doc')).1 := by
      apply moved_tables hfaithful hfaithful'
      rw [hdeclared, hdeclared']
      exact hlookup
    have hblocks : (Node.root doc').field? "blocks" = (Node.root doc).field? "blocks" :=
      hroot.field?_of_ne (by decide)
    obtain ⟨nodes, hnodes, hcs⟩ := bind_eq_ok.mp hcs
    have hnodes' : blockNodes (.root doc') = .ok nodes := by
      rw [← hnodes, blockNodes, blockNodes, Node.field, Node.field, hblocks]
      rfl
    refine ⟨cs, ?_, .of_perm (.refl cs)⟩
    rw [contents, hnodes', ok_bind]
    exact mapM_of_forall₂ ((mapM_eq_ok hcs).imp fun x c hx =>
      (readContent_moved hmoved rfl).ok_of_moved hx)

theorem loadsAlike_of_reordered (h : doc.Reordered doc') : LoadsAlike doc doc' := by
  induction h with
  | refl doc => exact fun e he => ⟨e, he, .refl e⟩
  | types h => exact loadsAlike_of_types h
  | blocks h => exact loadsAlike_of_blocks h
  | instructions n h => exact loadsAlike_of_instructions h
  | trans _ _ ih ih' =>
    intro e he
    obtain ⟨e', he', halike⟩ := ih e he
    obtain ⟨e'', he'', halike'⟩ := ih' e' he'
    exact ⟨e'', he'', halike.trans halike'⟩

end Steps

/-- A description in another order loads if and only if it does in its own, and then both loads
give the same instruction under every id, and blocks that list the same instructions. -/
theorem load_reordered {doc doc' : Doc} (h : doc.Reordered doc') :
    (load doc').success = (load doc).success ∧
      ∀ e e', (load doc).value = some e → (load doc').value = some e' → e.Alike e' := by
  have hforward := loadsAlike_of_reordered h
  have hback := loadsAlike_of_reordered h.symm
  constructor
  · rw [Bool.eq_iff_iff, Outcome.success, Outcome.success, Option.isSome_iff_exists,
      Option.isSome_iff_exists]
    constructor
    · rintro ⟨e, he⟩
      obtain ⟨e', he', -⟩ := hback e he
      exact ⟨e', he'⟩
    · rintro ⟨e, he⟩
      obtain ⟨e', he', -⟩ := hforward e he
      exact ⟨e', he'⟩
  · intro e e' he he'
    obtain ⟨e'', he'', halike⟩ := hforward e he
    cases he'.symm.trans he''
    exact halike

/-- A constant of a type that is built on the next one, used in the other block. -/
def forwardTypes : List (String × Doc) :=
  [("pair", .map [("kind", .text "array"), ("child", .text "item"), ("length", .int 2)]),
   ("item", .map [("kind", .text "int"), ("bits", .int 8)])]

def forwardConstant : Doc :=
  .map [("id", .int 0), ("kind", .text "const"), ("type", .text "pair"),
    ("value", .list [.int 1, .int 2])]

def forwardBranch : Doc := .map [("id", .int 1), ("kind", .text "br"), ("dest", .int 1)]

def forwardExit : Doc :=
  .map [("id", .int 1), ("instructions", .list
    [.map [("id", .int 2), ("kind", .text "return"), ("operand", .int 0)]])]

/-- A block with some instructions, among others, under some types. -/
def entryAmong (types : List (String × Doc)) (instructions : List Doc)
    (blocks : Doc → List Doc) : Doc :=
  .map [("types", .map types), ("blocks", .list
    (blocks (.map [("id", .int 0), ("instructions", .list instructions)])))]

/-- Everything is declared before it is used. -/
def backward : Doc :=
  entryAmong forwardTypes.reverse [forwardConstant, forwardBranch] fun b => [b, forwardExit]

/-- Everything is used before it is declared. -/
def forward : Doc :=
  entryAmong forwardTypes [forwardBranch, forwardConstant] fun b => [forwardExit, b]

theorem reordered_forward : backward.Reordered forward := by
  have htypes : backward.Reordered (entryAmong forwardTypes [forwardConstant, forwardBranch]
      fun b => [b, forwardExit]) :=
    .types (@Doc.DiffersAt.key _ "types" [] _ _ _ _ (by decide)
      (.here (.map (by decide) (List.reverse_perm _))))
  have hblocks : (entryAmong forwardTypes [forwardConstant, forwardBranch]
      fun b => [b, forwardExit]).Reordered forward := by
    refine @Doc.Reordered.of_blocks [("types", _)] [] _ _ _ (by decide)
      (.cons (.inr ?_) (.cons (.inl rfl) .nil)) (.swap _ _ _)
    exact @Doc.DiffersAt.key _ "instructions" [("id", _)] _ _ _ _ (by decide)
      (.here (.list (.swap _ _ _)))
  exact htypes.trans hblocks

theorem load_forward :
    ∃ e e', (load backward).value = some e ∧ (load forward).value = some e' ∧
      e.instructions.keys = [0, 1, 2] ∧ e'.instructions.keys = [2, 1, 0] ∧ e.Alike e' := by
  have hload : (load backward).value.map (fun e => e.instructions.keys) = some [0, 1, 2] := by
    decide +kernel
  have hload' : (load forward).value.map (fun e => e.instructions.keys) = some [2, 1, 0] := by
    decide +kernel
  obtain ⟨e, he, hkeys⟩ := Option.map_eq_some_iff.mp hload
  obtain ⟨e', he', hkeys'⟩ := Option.map_eq_some_iff.mp hload'
  exact ⟨e, e', he, he', hkeys, hkeys', (load_reordered reordered_forward).2 e e' he he'⟩

end Description

end BlockIr
