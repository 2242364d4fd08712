import BlockIr.Proofs.DecimalPlaces
import BlockIr.Proofs.IntegerRounding
import BlockIr.Proofs.Description.Names

/-!
# Ids, lengths and positions

An index goes through a binary64 number, but none is rounded on the way. An integer is either kept
by the rounding, or it is not safe before it and not safe after it either. So an index is the
number that the document has at its place, and different numbers are different indexes.

* `Binary64.toInt?_eq_some_iff`: which numbers are whole.
* `Doc.Counts`: the integer that a number of a document is.
* `Node.index_eq_ok_iff`, `Node.id_eq_ok_iff`: which indexes are read, and as what.
* `Ty.lengths`, `Data.Locates`: the lengths in a type and the positions in a constant.
* `index_exact`: all ids, lengths and positions of a description stand in its document.
-/

namespace BlockIr

/-! ## Whole numbers -/

namespace Binary64

/-- The exact value of a finite number. -/
def value? : Binary64 → Option ℚ
  | .finite negative m => some (signed negative m.value)
  | _ => none

theorem value?_ofBits (word : UInt64) :
    (ofBits word).value? = if IsFinite word then some (valueOf word) else none := by
  by_cases hfinite : IsFinite word
  · obtain ⟨m, hword, hvalue⟩ := ofBits_of_isFinite hfinite
    rw [if_pos hfinite, hword, value?, hvalue, valueOf]
  · have hexponent : word.toNat / 0x10000000000000 % 0x800 = 2047 := Decidable.not_not.mp hfinite
    rw [if_neg hfinite, ofBits]
    simp only [if_pos hexponent]
    split
    · rfl
    · rfl

theorem Magnitude.toNat?_eq_some_iff {m : Magnitude} {n : Nat} :
    m.toNat? = some n ↔ m.value = n := by
  have hpos : 0 < unitsPerOne := unitsPerOne_pos
  have hcast : (unitsPerOne : ℚ) ≠ 0 := by exact_mod_cast hpos.ne'
  have hvalue : m.value = n ↔ m.toUnits = n * unitsPerOne := by
    rw [Magnitude.value, div_eq_iff hcast]
    exact_mod_cast Iff.rfl
  rw [hvalue, toNat?]
  constructor
  · intro h
    split at h
    · rename_i hdvd
      cases h
      exact (Nat.div_mul_cancel (Nat.dvd_of_mod_eq_zero hdvd)).symm
    · cases h
  · intro h
    rw [h, if_pos (Nat.mul_mod_left _ _), Nat.mul_div_cancel _ hpos]

/-- A number is taken for an integer if and only if that is its exact value. -/
theorem toInt?_eq_some_iff {x : Binary64} {k : Int} :
    x.toInt? = some k ↔ x.value? = some (k : ℚ) := by
  cases x with
  | nan | infinity => exact ⟨nofun, nofun⟩
  | finite negative m =>
    simp only [toInt?, value?, Option.map_eq_some_iff, Magnitude.toNat?_eq_some_iff,
      Option.some.injEq]
    constructor
    · rintro ⟨n, hn, rfl⟩
      rw [hn, signed]
      split <;> simp
    · intro hk
      have hnonneg : 0 ≤ m.value := by
        rw [Magnitude.value]
        positivity
      cases negative with
      | false =>
        have hm : m.value = k := hk
        rw [hm] at hnonneg ⊢
        obtain ⟨n, rfl⟩ := Int.eq_ofNat_of_zero_le (by exact_mod_cast hnonneg : 0 ≤ k)
        exact ⟨n, rfl, rfl⟩
      | true =>
        have hm : m.value = ((-k : ℤ) : ℚ) := by
          rw [Int.cast_neg, ← (show -m.value = (k : ℚ) from hk), neg_neg]
        rw [hm] at hnonneg ⊢
        obtain ⟨n, hn⟩ := Int.eq_ofNat_of_zero_le (by exact_mod_cast hnonneg : 0 ≤ -k)
        refine ⟨n, by rw [hn]; rfl, ?_⟩
        rw [if_pos rfl, ← hn, neg_neg]

/-- Every index is rounded to itself, and no other integer is rounded to an index. -/
theorem toInt?_ofInt_eq_index {n k : Int} (hk : IsIndex k) :
    (ofInt n).toInt? = some k ↔ n = k := by
  constructor
  · intro h
    rw [toInt?_ofInt_eq] at h
    split at h
    · have hrounded : n.sign * rounded n.natAbs = k := Option.some.inj h
      rcases Nat.lt_or_ge maxSafe n.natAbs with hn | hn
      · -- What is rounded here is not safe, and neither is what it is rounded to.
        have hlarge := maxSafe_lt_rounded hn
        have habs : k.natAbs = rounded n.natAbs := by
          have hne : n ≠ 0 := by omega
          rw [← hrounded, Int.natAbs_mul, Int.natAbs_sign_of_ne_zero hne, Nat.one_mul,
            Int.natAbs_natCast]
        obtain ⟨hlow, hhigh⟩ := hk
        omega
      · rw [rounded_eq_self hn, Int.sign_mul_natAbs] at hrounded
        exact hrounded
    · cases h
  · rintro rfl
    refine toInt?_ofInt ?_
    obtain ⟨hlow, hhigh⟩ := hk
    omega

end Binary64

/-! ## Indexes -/

/-- The integer that a number of a document is. -/
def Doc.Counts : Doc → Int → Prop
  | .int n, k => n = k
  | .float x, k => x.value? = some (k : ℚ)
  | _, _ => False

theorem Doc.Counts.unique {d : Doc} {j k : Int} (hj : d.Counts j) (hk : d.Counts k) : j = k := by
  cases d with
  | int n => exact hj.symm.trans hk
  | float x =>
    have hcast : (j : ℚ) = k := Option.some.inj (hj.symm.trans hk)
    exact_mod_cast hcast
  | _ => exact hj.elim

namespace Node

variable {x y : Node} {key : String} {k : Int}

theorem index_eq_ok : x.index = .ok k ↔
    ∃ number, x.number = .ok number ∧ number.toInt? = some k ∧ IsIndex k := by
  rw [index, bind_eq_ok]
  refine exists_congr fun number => and_congr_right fun _ => ?_
  cases number.toInt? with
  | none => simp [fail]
  | some n =>
    dsimp only
    split
    · rename_i hn
      constructor
      · intro h
        cases h
        exact ⟨rfl, hn⟩
      · rintro ⟨hk, -⟩
        cases hk
        rfl
    · rename_i hn
      constructor
      · intro h
        cases h
      · rintro ⟨hk, hindex⟩
        cases hk
        exact absurd hindex hn

/-- An index is read as the number that it is, and no other number is read as one. -/
theorem index_eq_ok_iff : x.index = .ok k ↔ x.doc.Counts k ∧ IsIndex k := by
  rw [index_eq_ok]
  obtain ⟨d, place⟩ := x
  cases d with
  | int n =>
    simp only [number, Except.ok.injEq, exists_eq_left', Doc.Counts]
    exact and_congr_left fun hk => Binary64.toInt?_ofInt_eq_index hk
  | float number =>
    simp only [Node.number, Except.ok.injEq, exists_eq_left', Doc.Counts,
      Binary64.toInt?_eq_some_iff]
  | _ =>
    simp only [number, fail, Doc.Counts, reduceCtorEq, false_and, exists_false]

/-- There is a number under a key. -/
def CountsAt (x : Node) (key : String) (k : Int) : Prop :=
  ∃ entry, x.field key = .ok entry ∧ entry.doc.Counts k

theorem CountsAt.unique {j : Int} (hj : x.CountsAt key j) (hk : x.CountsAt key k) : j = k := by
  obtain ⟨entry, hentry, hj⟩ := hj
  obtain ⟨entry', hentry', hk⟩ := hk
  cases hentry.symm.trans hentry'
  exact hj.unique hk

theorem id_eq_ok_iff : x.id key = .ok k ↔ x.CountsAt key k ∧ IsIndex k := by
  simp only [id, bind_eq_ok, index_eq_ok_iff, CountsAt, exists_and_right, ← and_assoc]

theorem countsAt_of_id (h : x.id key = .ok k) : x.CountsAt key k := (id_eq_ok_iff.mp h).1

/-- A node inside another one, or this one itself. -/
def Inside (y x : Node) : Prop :=
  ∃ steps, x.doc.at? steps = some y.doc ∧ y.place = x.place ++ steps

theorem inside_refl (x : Node) : x.Inside x := ⟨[], rfl, (List.append_nil _).symm⟩

theorem Inside.step {z : Node} (h : z.Inside y) {step : Step}
    (hstep : x.doc.child? step = some y.doc ∧ y.place = x.place ++ [step]) : z.Inside x := by
  obtain ⟨steps, hdoc, hplace⟩ := h
  refine ⟨step :: steps, ?_, ?_⟩
  · rw [Doc.at?, List.foldlM_cons, hstep.1]
    exact hdoc
  · rw [hplace, hstep.2, List.append_assoc]
    rfl

end Node

/-! ## Lengths -/

/-- The lengths of the arrays in a type, at any depth. -/
def Ty.lengths : Ty → List Int
  | .array _ child length => length :: child.lengths
  | .pointer _ child _ | .maybe _ child | .errorUnion _ child | .declared _ child => child.lengths
  | _ => []

/-- What a declaration gives has lengths with a property, if what it is built on has. -/
def Declaration.LengthsHave (Q : Int → Prop) : Declaration → Prop
  | .complete type => ∀ k ∈ type.lengths, Q k
  | .over _ build => ∀ childType type, (∀ k ∈ childType.lengths, Q k) →
    build childType = .ok type → ∀ k ∈ type.lengths, Q k

theorem Declaration.lengthsHave_of_read {Q : Int → Prop} {key : String} {x : Node}
    {d : Declaration} (h : ∀ k, x.CountsAt "length" k → Q k)
    (hd : Declaration.read key x = .ok d) : d.LengthsHave Q := by
  obtain ⟨_, -, hd⟩ := bind_eq_ok.mp hd
  obtain ⟨shape, -, hd⟩ := bind_eq_ok.mp hd
  obtain ⟨name, -, hd⟩ := bind_eq_ok.mp hd
  unfold Declaration.readShape at hd
  cases shape with
  | plain kind =>
    cases hd
    exact List.forall_mem_nil _
  | int | aggregate =>
    obtain ⟨_, -, hd⟩ := bind_eq_ok.mp hd
    obtain ⟨_, -, hd⟩ := bind_eq_ok.mp hd
    cases hd
    exact List.forall_mem_nil _
  | float =>
    obtain ⟨_, -, hd⟩ := bind_eq_ok.mp hd
    cases hd
    exact List.forall_mem_nil _
  | pointer =>
    obtain ⟨_, -, hd⟩ := bind_eq_ok.mp hd
    cases hd
    intro childType type hchild hbuild
    obtain ⟨_, -, hbuild⟩ := bind_eq_ok.mp hbuild
    cases hbuild
    exact hchild
  | array =>
    obtain ⟨_, -, hd⟩ := bind_eq_ok.mp hd
    cases hd
    intro childType type hchild hbuild
    obtain ⟨length, hlength, hbuild⟩ := bind_eq_ok.mp hbuild
    cases hbuild
    exact List.forall_mem_cons.mpr ⟨h length (Node.countsAt_of_id hlength), hchild⟩
  | maybe | errorUnion | declared =>
    obtain ⟨_, -, hd⟩ := bind_eq_ok.mp hd
    cases hd
    intro childType type hchild hbuild
    cases hbuild
    exact hchild

/-- The lengths in a type are those that its declarations give. -/
theorem TypeTable.lengths_of_unfolds {Q : Int → Prop} {declarations : List (String × Node)}
    {chain : List String} {name : String} {type : Ty}
    (h : ∀ name declaration, declarations.lookup name = some declaration →
      ∀ k, declaration.CountsAt "length" k → Q k)
    (htype : Unfolds declarations chain name type) : ∀ k ∈ type.lengths, Q k := by
  induction htype with
  | @builtin name type _ hknown =>
    obtain ⟨before, after, hknown, -⟩ := List.lookup_eq_some_iff.mp hknown
    have hmem : (name, type) ∈ TypeTable.builtin.known := by simp [hknown]
    obtain ⟨t, ht, heq⟩ := List.mem_map.mp hmem
    cases heq
    have hall : ∀ t ∈ Ty.builtins, t.lengths = [] := by
      simp [Ty.builtins, Ty.ofPlain, Ty.ofInt, Ty.ofFloat, Ty.lengths]
    rw [hall _ ht]
    exact List.forall_mem_nil _
  | complete hdeclared hread =>
    exact Declaration.lengthsHave_of_read (h _ _ hdeclared) hread
  | built hdeclared hread _ _ hbuild ih =>
    exact Declaration.lengthsHave_of_read (h _ _ hdeclared) hread _ _ ih hbuild

/-! ## Positions -/

/-- A position of a lexical block, at any depth of a constant. -/
inductive Data.Locates : Data → Int → Int → Prop where
  | scope (line column : Int) : Locates (.scope line column) line column
  | pointee {data : Data} {line column : Int} : data.Locates line column →
    Locates (.pointer (.static data)) line column
  | element {data : Data} {elements : List Value} {line column : Int} :
    .static data ∈ elements → data.Locates line column → Locates (.array elements) line column
  | present {data : Data} {line column : Int} : data.Locates line column →
    Locates (.present (.static data)) line column

section Positions

variable {types : TypeTable} {x : Node} {data : Data} {line column : Int}

theorem payload_of_readState {payload : Node → Reading Data}
    (h : readState x payload = .ok (.static data)) : payload x = .ok data := by
  rcases readState_eq_ok h with ⟨-, hbare | hbare | hbare⟩ | ⟨-, _, hdata, heq⟩
  · cases hbare
  · cases hbare
  · cases hbare
  · cases heq
    exact hdata

/-- A node with a line and a column. -/
def Node.IsPosition (x : Node) (line column : Int) : Prop :=
  x.CountsAt "line" line ∧ x.CountsAt "column" column

/-- The positions in data that was read stand inside its node. -/
theorem readData_locates {t : Ty} (h : readData types t x = .ok data)
    (hlocates : data.Locates line column) : ∃ y : Node, y.Inside x ∧ y.IsPosition line column := by
  induction t generalizing x data with
  | declared name canonical ih => exact ih h hlocates
  | int | float =>
    obtain ⟨_, -, rfl⟩ := map_eq_ok.mp h
    cases hlocates
  | pointer name child isConst ih =>
    obtain ⟨pointee, hpointee, rfl⟩ := map_eq_ok.mp h
    cases hlocates with
    | pointee hlocates => exact ih (payload_of_readState (readPart_eq_ok hpointee).1) hlocates
  | array name child length ih =>
    obtain ⟨items, hitems, h⟩ := bind_eq_ok.mp h
    split at h
    · obtain ⟨elements, helements, h⟩ := bind_eq_ok.mp h
      cases h
      cases hlocates with
      | element hmem hlocates =>
        obtain ⟨item, hitem, hread⟩ := exists_of_mem_right (mapM_eq_ok helements) hmem
        obtain ⟨y, hinside, hy⟩ := ih (payload_of_readState (readPart_eq_ok hread).1) hlocates
        obtain ⟨i, hstep⟩ := Node.mem_list hitems hitem
        exact ⟨y, hinside.step hstep, hy⟩
    · cases h
  | maybe name child ih =>
    unfold readData at h
    split at h
    · cases h
      cases hlocates
    · obtain ⟨inner, hinner, rfl⟩ := map_eq_ok.mp h
      cases hlocates with
      | present hlocates => exact ih (payload_of_readState (readPart_eq_ok hinner).1) hlocates
  | errorUnion | aggregate | unrecognised =>
    cases h
    cases hlocates
  | plain kind name =>
    cases kind with
    | block =>
      obtain ⟨l, hl, h⟩ := bind_eq_ok.mp h
      obtain ⟨c, hc, h⟩ := bind_eq_ok.mp h
      cases h
      cases hlocates
      exact ⟨x, x.inside_refl, Node.countsAt_of_id hl, Node.countsAt_of_id hc⟩
    | intLiteral | floatLiteral | bool | metaType | fn | namespacePath =>
      obtain ⟨_, -, rfl⟩ := map_eq_ok.mp h
      cases hlocates
    | boundFn =>
      obtain ⟨_, -, h⟩ := bind_eq_ok.mp h
      obtain ⟨_, -, h⟩ := bind_eq_ok.mp h
      obtain ⟨_, -, h⟩ := bind_eq_ok.mp h
      cases h
      cases hlocates
    | _ =>
      cases h
      cases hlocates

theorem readEntry_locates {taken : InstrId → Bool} {entry : Entry}
    (h : readEntry types taken x = .ok entry) (hvalue : entry.instruction.value = .static data)
    (hlocates : data.Locates line column) : ∃ y : Node, y.Inside x ∧ y.IsPosition line column := by
  obtain ⟨_, -, h⟩ := bind_eq_ok.mp h
  obtain ⟨_, -, h⟩ := bind_eq_ok.mp h
  obtain ⟨type, -, h⟩ := bind_eq_ok.mp h
  obtain ⟨_, -, h⟩ := bind_eq_ok.mp h
  obtain ⟨valueNode, hvalueNode, h⟩ := bind_eq_ok.mp h
  obtain ⟨_, -, h⟩ := bind_eq_ok.mp h
  obtain ⟨value, hread, h⟩ := bind_eq_ok.mp h
  obtain ⟨_, -, h⟩ := bind_eq_ok.mp h
  cases h
  dsimp only at hvalue
  subst hvalue
  cases valueNode with
  | none => cases hread
  | some node =>
    unfold readValue at hread
    have hdata := payload_of_readState hread
    cases type with
    | none => cases hdata
    | some t =>
      obtain ⟨y, hinside, hy⟩ := readData_locates hdata hlocates
      exact ⟨y, hinside.step (Node.field?_eq_some hvalueNode), hy⟩

end Positions

/-! ## Descriptions -/

namespace Description

/-- The ids of an executable are the numbers of its entries, and its positions stand inside of
them. -/
structure Counted (ss : List Section) (e : Executable) : Prop where
  blocks : List.Forall₂ (fun s entry => entry.1 = entry.2.id ∧ s.head.CountsAt "id" entry.2.id)
    ss e.blocks.entries
  instructions : List.Forall₂ (fun item entry => entry.1 = entry.2.id ∧
      item.CountsAt "id" entry.2.id ∧
      ∀ data line column, entry.2.value = .static data → data.Locates line column →
        ∃ y : Node, y.Inside item ∧ y.IsPosition line column)
    (ss.flatMap Section.items) e.instructions.entries

theorem Transcribes.counted {types : TypeTable} {ss : List Section} {e : Executable}
    (h : Transcribes types ss e) : Counted ss e where
  blocks := h.blocks.imp fun _ _ hgives => ⟨hgives.key, Node.countsAt_of_id hgives.id⟩
  instructions := by
    refine h.arena.imp fun item entry hgives => ?_
    refine ⟨hgives.key, Node.countsAt_of_id hgives.id, fun data line column hvalue hlocates => ?_⟩
    obtain ⟨read, hread, hentry⟩ := hgives.instruction
    rw [hentry] at hvalue
    exact readEntry_locates hread hvalue hlocates

/-- The lengths in the types of a description stand in its document. -/
theorem lengths_of_lookup {doc : Doc} {x : Node} {t : Ty}
    (h : (readTypes (.root doc)).1.lookup x = .ok t) :
    ∀ k ∈ t.lengths, ∃ y : Node, y.Inside (.root doc) ∧ y.CountsAt "length" k := by
  obtain ⟨name, chain, -, hchain⟩ := (TypeTable.lookup_ok_iff (readTypes_faithful _)).mp h
  refine TypeTable.lengths_of_unfolds (fun name declaration hdeclared k hk => ?_) hchain
  obtain ⟨types, htypes, hstep⟩ := lookup_readTypes hdeclared
  refine ⟨declaration, ?_, hk⟩
  exact (declaration.inside_refl.step hstep).step (Node.field?_eq_some htypes)

theorem lookup_of_readEntry {types : TypeTable} {taken : InstrId → Bool} {x : Node}
    {entry : Entry} (h : readEntry types taken x = .ok entry) {t : Ty}
    (ht : entry.instruction.type = some t) : ∃ node, types.lookup node = .ok t := by
  obtain ⟨_, -, h⟩ := bind_eq_ok.mp h
  obtain ⟨_, -, h⟩ := bind_eq_ok.mp h
  obtain ⟨type, htype, h⟩ := bind_eq_ok.mp h
  obtain ⟨_, -, h⟩ := bind_eq_ok.mp h
  obtain ⟨_, -, h⟩ := bind_eq_ok.mp h
  obtain ⟨_, -, h⟩ := bind_eq_ok.mp h
  obtain ⟨_, -, h⟩ := bind_eq_ok.mp h
  obtain ⟨_, -, h⟩ := bind_eq_ok.mp h
  cases h
  dsimp only at ht
  subst ht
  obtain ⟨node, -, htype⟩ := bind_eq_ok.mp htype
  cases node with
  | none => cases htype
  | some node =>
    dsimp only at htype
    split at htype
    · cases htype
    · obtain ⟨_, hlookup, htype⟩ := map_eq_ok.mp htype
      cases htype
      exact ⟨node, hlookup⟩

/-- The type of an instruction is one that the table gives. -/
theorem Transcribes.lookup {types : TypeTable} {ss : List Section} {e : Executable}
    (h : Transcribes types ss e) {i : Instruction} (hi : i ∈ e.instructions.values) {t : Ty}
    (ht : i.type = some t) : ∃ node, types.lookup node = .ok t := by
  obtain ⟨key, hi⟩ := Table.mem_values_iff.mp hi
  obtain ⟨item, -, hgives⟩ := exists_of_mem_right h.arena hi
  obtain ⟨read, hread, heq⟩ := hgives.instruction
  dsimp only at heq
  rw [heq] at ht
  exact lookup_of_readEntry hread ht

/-- Indexes are never rounded. An integer is an index just if it is at least zero and has at most
53 bits, and then it is read as itself; so is a binary64 number just if its exact value is such an
integer. So numbers that are read as the same index are the same. The ids, lengths and positions
of a description are the numbers that stand in its document, and there is one under a key. -/
theorem index_exact (doc : Doc) (place : Place) :
    (∀ n k : Int, (⟨.int n, place⟩ : Node).index = .ok k ↔ k = n ∧ 0 ≤ n ∧ n ≤ 2 ^ 53 - 1) ∧
      (∀ (word : UInt64) (k : Int), (⟨.float (.ofBits word), place⟩ : Node).index = .ok k ↔
        (Binary64.IsFinite word ∧ Binary64.valueOf word = k) ∧ 0 ≤ k ∧ k ≤ 2 ^ 53 - 1) ∧
      (∀ (x y : Node) (m n k : Int), x.doc.Counts m → y.doc.Counts n →
        x.index = .ok k → y.index = .ok k → m = n) ∧
      (∀ (x : Node) (key : String) (m n : Int), x.CountsAt key m → x.CountsAt key n → m = n) ∧
      (∀ (x : Node) (t : Ty), (readTypes (.root doc)).1.lookup x = .ok t →
        ∀ k ∈ t.lengths, ∃ y : Node, y.Inside (.root doc) ∧ y.CountsAt "length" k) ∧
      ∀ e, (load doc).value = some e →
        (∃ ss, sections (.root doc) = .ok ss ∧ Counted ss e) ∧
        ∀ i ∈ e.instructions.values, ∀ t, i.type = some t →
          ∀ k ∈ t.lengths, ∃ y : Node, y.Inside (.root doc) ∧ y.CountsAt "length" k := by
  have hsafe : ((Binary64.maxSafe : Nat) : Int) = 2 ^ 53 - 1 := by decide
  refine ⟨fun n k => ?_, fun word k => ?_, fun x y m n k hm hn hx hy => ?_,
    fun x key m n => Node.CountsAt.unique, fun x t => lengths_of_lookup, fun e he => ?_⟩
  · rw [Node.index_eq_ok_iff, IsIndex, hsafe]
    constructor
    · rintro ⟨rfl, hk⟩
      exact ⟨rfl, hk⟩
    · rintro ⟨rfl, hn⟩
      exact ⟨rfl, hn⟩
  · rw [Node.index_eq_ok_iff, IsIndex, hsafe, Doc.Counts, Binary64.value?_ofBits]
    refine and_congr_left fun _ => ?_
    split
    · rename_i hfinite
      rw [Option.some.injEq]
      exact (and_iff_right hfinite).symm
    · rename_i hinfinite
      constructor
      · intro h
        cases h
      · rintro ⟨hfinite, -⟩
        exact absurd hfinite hinfinite
  · have hmk : m = k := hm.unique (Node.index_eq_ok_iff.mp hx).1
    have hnk : n = k := hn.unique (Node.index_eq_ok_iff.mp hy).1
    exact hmk.trans hnk.symm
  · obtain ⟨ss, hss, htranscribes⟩ := transcribes_of_load he
    refine ⟨⟨ss, hss, htranscribes.counted⟩, fun i hi t ht => ?_⟩
    obtain ⟨node, hlookup⟩ := htranscribes.lookup hi ht
    exact lengths_of_lookup hlookup

/-- The greatest index as an id and as a line, and a float as an id. -/
def greatestIndexes : Doc :=
  .map
    [("types", .map
      [("Row", .map [("kind", .text "array"), ("child", .text "u8"), ("length", .int 3)])]),
     ("blocks", .list
      [.map
        [("id", .int 9007199254740991),
         ("instructions", .list
          [.map [("id", .float (.ofBits 0x3ff0000000000000)), ("kind", .text "const"),
            ("type", .text "(block)"),
            ("value", .map [("line", .int 9007199254740991), ("column", .int 0)])],
           .map [("id", .int 2), ("kind", .text "const"), ("type", .text "Row"),
            ("value", .map [("special", .text "undef")])]])]])]

theorem index_exact_greatestIndexes :
    (⟨.int 9007199254740992, []⟩ : Node).index ≠ .ok 9007199254740992 ∧
      (⟨.int 9007199254740993, []⟩ : Node).index ≠ .ok 9007199254740992 ∧
      ∃ e ss, (load greatestIndexes).value = some e ∧ e.blocks.keys = [9007199254740991] ∧
        e.instructions.keys = [1, 2] ∧ sections (.root greatestIndexes) = .ok ss ∧
        Counted ss e ∧ e.instructions.values.map Instruction.type =
          [some (Ty.ofPlain .block), some (.array "Row" (.ofInt 8 false) 3)] ∧
        ∃ y : Node, y.Inside (.root greatestIndexes) ∧ y.CountsAt "length" 3 := by
  obtain ⟨hint, -, -, -, -, hload⟩ := index_exact greatestIndexes []
  have hnot (n : Int) (hn : 2 ^ 53 - 1 < n) (k : Int) : (⟨.int n, []⟩ : Node).index ≠ .ok k := by
    intro h
    have hrange := (hint n k).mp h
    omega
  have hvalue : (load greatestIndexes).value.isSome = true := by decide +kernel
  obtain ⟨e, he⟩ := Option.isSome_iff_exists.mp hvalue
  have hfound : (load greatestIndexes).value.map (fun e => (e.blocks.keys, e.instructions.keys,
      e.instructions.values.map Instruction.type)) =
      some ([9007199254740991], [1, 2],
        [some (Ty.ofPlain .block), some (.array "Row" (.ofInt 8 false) 3)]) := by
    decide +kernel
  simp only [he, Option.map_some, Option.some.injEq, Prod.mk.injEq] at hfound
  obtain ⟨hblocks, hkeys, htypes⟩ := hfound
  obtain ⟨⟨ss, hss, hcounted⟩, hlengths⟩ := hload e he
  have hrow : some (.array "Row" (.ofInt 8 false) 3) ∈ e.instructions.values.map
      Instruction.type := by
    rw [htypes]
    exact List.mem_cons_of_mem _ (List.mem_singleton_self _)
  obtain ⟨i, hi, htype⟩ := List.mem_map.mp hrow
  refine ⟨hnot _ (by decide) _, hnot _ (by decide) _, e, ss, he, hblocks, hkeys, hss, hcounted,
    htypes, ?_⟩
  exact hlengths i hi _ htype 3 (List.mem_singleton_self 3)

end Description

end BlockIr
