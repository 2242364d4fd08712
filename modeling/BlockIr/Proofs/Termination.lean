import BlockIr.Proofs.Failure

/-!
# Renderings come to an end

The text of an operand may need that of another one, and that of a third; nothing in the rule
says that this ends, and `Executable.operand` stops where a chain has to be a circle. Where no
known instruction is its own receiver, directly or through others, no chain is a circle: every
operand has a text or a problem of its own, which the rule gives without a bound, and a chain
passes through every instruction at most once. Operands, phis and targets may form circles, since
they are never followed.

* `Executable.Renders`: what the rule gives, as the end of finitely many steps.
* `Executable.length_le_of_chain`: how long a chain of receivers can be.
* `Executable.dump_ends`: no dump runs around in a circle.
* `Executable.rendering_ends`: the whole, for operands, lines and dumps.
-/

namespace BlockIr

/-- A rendering with an end: it does not go on along a circle of receivers. -/
def Ends {α : Type} (x : Except DumpStop α) : Prop := x ≠ .error .endless

theorem DumpStop.OfConstant.ne_endless {p : DumpStop} (h : p.OfConstant) : p ≠ .endless := by
  rintro rfl
  exact h

namespace Executable

/-- The value of a known instruction names another known instruction. -/
def KnownReceives (e : Executable) (a b : InstrId) : Prop :=
  ∃ i j, e.instructions.find? a = some i ∧ i.isInlined = true ∧ b ∈ i.references ∧
    e.instructions.find? b = some j ∧ j.isInlined = true

/-- What an operand is shown as, in finitely many steps: the instructions that its value names are
shown first, whether the text needs them or not, and without a bound on how far that leads. -/
inductive Renders (e : Executable) : InstrId → Except DumpStop String → Prop where
  | missing {id : InstrId} : e.instructions.find? id = none →
    Renders e id (.error (.problem (.missingInstruction id)))
  | reference {id : InstrId} {i : Instruction} : e.instructions.find? id = some i →
    i.isInlined = false → Renders e id (.ok (DumpError.idText i.id))
  | constant {id : InstrId} {i : Instruction} {shown : InstrId → Except DumpStop String} :
    e.instructions.find? id = some i → i.isInlined = true →
    (∀ r ∈ i.references, Renders e r (shown r)) → Renders e id (i.constantText shown)

variable {e : Executable}

/-! ## Circles of receivers -/

/-- A value that names something is known. -/
theorem isInlined_of_mem_references {i : Instruction} {r : InstrId} (h : r ∈ i.references) :
    i.isInlined = true := by
  unfold Instruction.references at h
  unfold Instruction.isInlined
  cases hv : i.value with
  | runtime =>
    rw [hv] at h
    cases h
  | _ => rfl

/-- A receiver that has a receiver itself is known. -/
theorem KnownReceives.of_receives {a b c : InstrId} (hab : e.Receives a b)
    (hbc : e.Receives b c) : e.KnownReceives a b := by
  obtain ⟨i, hi, hb⟩ := hab
  obtain ⟨j, hj, hc⟩ := hbc
  exact ⟨i, j, hi, isInlined_of_mem_references hb, hb, hj, isInlined_of_mem_references hc⟩

theorem transGen_knownReceives {a b c : InstrId} (h : Relation.TransGen e.Receives a b)
    (hc : e.Receives b c) : Relation.TransGen e.KnownReceives a b := by
  induction h generalizing c with
  | single hab => exact .single (.of_receives hab hc)
  | tail _ hbd ih => exact .tail (ih hbd) (.of_receives hbd hc)

/-- Only known instructions stand in a circle of receivers. -/
theorem noSelfReceiver_iff_known :
    e.NoSelfReceiver ↔ ∀ id, ¬ Relation.TransGen e.KnownReceives id id := by
  constructor
  · intro h id hcircle
    have hstep (a b : InstrId) (hab : e.KnownReceives a b) : e.Receives a b := by
      obtain ⟨i, _, hi, -, hb, -⟩ := hab
      exact ⟨i, hi, hb⟩
    exact h id (Relation.TransGen.mono hstep id id hcircle)
  · intro h id hcircle
    obtain ⟨r, hr, -⟩ := Relation.TransGen.head'_iff.mp hcircle
    exact h id (transGen_knownReceives hcircle hr)

/-! ## Chains of receivers -/

/-- Along a chain every receiver leads to fewer instructions than what names it. -/
theorem length_add_card_reach_le (he : e.NoSelfReceiver) {id : InstrId} {rs : List InstrId}
    (h : List.IsChain e.Receives (id :: rs)) :
    rs.length + (e.reach ((id :: rs).getLast (List.cons_ne_nil id rs))).card ≤
      (e.reach id).card := by
  induction rs generalizing id with
  | nil => exact (Nat.zero_add _).le
  | cons r rs ih =>
    obtain ⟨hr, hrest⟩ := List.isChain_cons_cons.mp h
    have hlt := card_reach_lt he hr
    have hle := ih hrest
    rw [List.getLast_cons_cons, List.length_cons]
    omega

/-- A chain has no more receivers than there are instructions, and fewer if it starts and ends
with instructions that exist. -/
theorem length_le_of_chain (he : e.NoSelfReceiver) {id : InstrId} {rs : List InstrId}
    (h : List.IsChain e.Receives (id :: rs)) :
    rs.length ≤ e.instructions.entries.length ∧
      ((∀ r ∈ id :: rs, r ∈ e.instructions.keys) →
        rs.length < e.instructions.entries.length) := by
  have hall := card_reach_le (e := e) id
  have hchain := length_add_card_reach_le he h
  refine ⟨by omega, fun hstored => ?_⟩
  have hlast : 0 < (e.reach ((id :: rs).getLast (List.cons_ne_nil id rs))).card :=
    Finset.card_pos.mpr ⟨_, mem_reach.mpr ⟨hstored _ (List.getLast_mem _), .refl⟩⟩
  omega

/-! ## Operands -/

/-- The rule leads to what an operand is shown as. -/
theorem renders_operand (he : e.NoSelfReceiver) (id : InstrId) : e.Renders id (e.operand id) := by
  induction id using receiver_induction he with
  | step id ih =>
    rw [operand_eq he, lookup]
    cases hi : e.instructions.find? id with
    | none => exact .missing hi
    | some i =>
      simp only [ok_bind]
      split
      · rename_i hinlined
        exact .constant hi hinlined fun r hr => ih r ⟨i, hi, hr⟩
      · rename_i hinlined
        exact .reference hi (Bool.eq_false_iff.mpr hinlined)

/-- The rule leads to one end only. -/
theorem Renders.eq_operand (he : e.NoSelfReceiver) {id : InstrId} {x : Except DumpStop String}
    (h : e.Renders id x) : x = e.operand id := by
  induction h with
  | missing hi => rw [operand_eq he, lookup, hi]; rfl
  | reference hi hinlined =>
    rw [operand_eq he, lookup, hi, ok_bind, hinlined]
    rfl
  | constant hi hinlined _ ih =>
    rw [operand_eq he, lookup, hi, ok_bind, if_pos hinlined]
    exact Instruction.constantText_congr _ ih

theorem constantText_ends {shown : InstrId → Except DumpStop String} {i : Instruction}
    (h : ∀ r ∈ i.references, Ends (shown r)) : Ends (i.constantText shown) := by
  intro hendless
  rcases i.constantText_error hendless with ⟨r, hr, hr'⟩ | ⟨-, hp⟩ | ⟨-, hp | hp⟩
  · exact h r hr hr'
  · cases hp
  · cases hp
  · exact hp.ne_endless rfl

theorem Renders.ends {id : InstrId} {x : Except DumpStop String} (h : e.Renders id x) :
    Ends x := by
  induction h with
  | missing => exact nofun
  | reference => exact nofun
  | constant _ _ _ ih => exact constantText_ends ih

theorem operand_ends (he : e.NoSelfReceiver) (id : InstrId) : Ends (e.operand id) :=
  (renders_operand he id).ends

/-- No more than as many calls as there are instructions nest. -/
theorem operandWithin_eq_operand (he : e.NoSelfReceiver) {bound : Nat}
    (hbound : e.instructions.entries.length < bound) (id : InstrId) :
    e.operandWithin bound id = e.operand id := by
  have hle := card_reach_le (e := e) id
  exact operandWithin_congr he (by omega) (by omega)

/-! ## Lines and dumps -/

theorem body_ends (he : e.NoSelfReceiver) (i : Instruction) : Ends (i.body e) := by
  intro hendless
  rcases Instruction.body_error hendless with ⟨-, h⟩ | ⟨-, h⟩ | ⟨_, -, h⟩ | ⟨a, -, h⟩ | ⟨b, -, h⟩
  · exact constantText_ends (fun r _ => operand_ends he r) h
  · cases h
  · cases h
  · exact operand_ends he a h
  · cases (blockReference_error h).2

theorem line_ends (he : e.NoSelfReceiver) (i : Instruction) (margin : Nat) :
    Ends (i.line e margin) :=
  fun hendless => body_ends he i (Instruction.line_error hendless)

theorem chunkText_ends (he : e.NoSelfReceiver) (margin : Nat) (chunk : Chunk) :
    Ends (e.chunkText margin chunk) := by
  intro hendless
  obtain ⟨_, -, ⟨-, h⟩ | ⟨i, -, h⟩⟩ := chunkText_error hendless
  · cases h
  · exact body_ends he i h

/-- A dump ends, wherever it goes. -/
theorem dump_ends {σ : Type} [Sink σ] (he : e.NoSelfReceiver) (margin : Nat) (sink : σ) :
    (e.dump margin sink).2 ≠ some .endless := by
  intro hendless
  rcases dump_error hendless with ⟨chunk, -, h⟩ | ⟨_, _, _, -, h⟩
  · exact chunkText_ends he margin chunk h
  · cases h

/-- Where no known instruction is its own receiver, directly or through others, every operand and
every line has an end, and so has every dump, into a buffer or a stream. What an operand is shown
as is where the rule leads without a bound, and it leads nowhere else: calls nest no deeper than
there are instructions, and a chain passes through no more receivers. -/
theorem rendering_ends (he : ∀ id, ¬ Relation.TransGen e.KnownReceives id id) :
    (∀ id, Ends (e.operand id) ∧ ∀ x, e.Renders id x ↔ x = e.operand id) ∧
    (∀ (i : Instruction) (margin : Nat), Ends (i.line e margin)) ∧
    (∀ (margin : Nat) (buffer : BufferSink) (stream : StreamSink),
      (e.dump margin buffer).2 ≠ some .endless ∧ (e.dump margin stream).2 ≠ some .endless) ∧
    (∀ bound, e.instructions.entries.length < bound →
      ∀ id, e.operandWithin bound id = e.operand id) ∧
    ∀ id rs, List.IsChain e.Receives (id :: rs) →
      rs.length ≤ e.instructions.entries.length ∧
        ((∀ r ∈ id :: rs, r ∈ e.instructions.keys) →
          rs.length < e.instructions.entries.length) := by
  rw [← noSelfReceiver_iff_known] at he
  refine ⟨fun id => ⟨operand_ends he id, fun x => ⟨Renders.eq_operand he, ?_⟩⟩,
    line_ends he, fun margin buffer stream => ⟨dump_ends he margin buffer,
      dump_ends he margin stream⟩,
    fun _ hbound => operandWithin_eq_operand he hbound, fun _ _ => length_le_of_chain he⟩
  rintro rfl
  exact renders_operand he id

/-- A loop whose phi uses itself, and a chain of two receivers that ends there. -/
def phiLoop : Executable where
  blocks := .ofList [(0, ⟨0, "loop", [2, 0, 1, 3]⟩)]
  instructions := .ofList
    [(0, ⟨0, some (.ofPlain .boundFn), 1, .static (.boundFn "f" 1), .const⟩),
     (1, ⟨1, some (.ofPlain .boundFn), 0, .static (.boundFn "g" 2), .ref 0⟩),
     (2, ⟨2, none, 2, .runtime, .phi [⟨0, 2⟩, ⟨0, 0⟩]⟩),
     (3, ⟨3, none, 0, .runtime, .br 0 false⟩)]

theorem rendering_phiLoop :
    (∀ id, ¬ Relation.TransGen phiLoop.KnownReceives id id) ∧
      phiLoop.Renders 0 (.ok "bound f to bound g to #2") ∧
      (∀ reach, 4 < reach →
        phiLoop.operandWithin reach 0 = .ok "bound f to bound g to #2") ∧
      [1, 2].length < phiLoop.instructions.entries.length := by
  have hself : ∀ id, ¬ Relation.TransGen phiLoop.KnownReceives id id :=
    noSelfReceiver_iff_known.mp
      (noSelfReceiver_of_rank (fun id => (2 - id).toNat) (by decide))
  have hoperand : phiLoop.operand 0 = .ok "bound f to bound g to #2" := by decide +kernel
  obtain ⟨hends, -, -, hbound, hchain⟩ := rendering_ends hself
  refine ⟨hself, ((hends 0).2 _).mpr hoperand.symm, fun reach hreach => ?_, ?_⟩
  · rw [hbound reach hreach, hoperand]
  · refine (hchain 0 [1, 2] ?_).2 (by decide)
    exact .cons_cons ⟨_, rfl, List.mem_singleton.mpr rfl⟩
      (.cons_cons ⟨_, rfl, List.mem_singleton.mpr rfl⟩ (.singleton 2))

/-- A function that is bound to itself, behind an instruction without a value. -/
def boundToItself : Executable where
  blocks := .ofList [(0, ⟨0, "entry", [0, 1]⟩)]
  instructions := .ofList
    [(0, ⟨0, none, 0, .runtime, .unreachable⟩),
     (1, ⟨1, some (.ofPlain .boundFn), 0, .static (.boundFn "f" 1), .const⟩)]

/-- With such a function a dump does not come to an end; the line before stays written. -/
example : boundToItself.dump 0 BufferSink.empty =
    (⟨"entry_0:\n" ++ "#0  | (unknown)   | - | unreachable\n"⟩, some .endless) := by
  decide +kernel

end Executable

end BlockIr
