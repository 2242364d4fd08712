import BlockIr.Proofs.Failure
import BlockIr.Proofs.Issues

/-!
# Dumps of validated executables

An executable that passes the validation refers to entries that exist: in the lists of its
blocks, in the operands and targets of its instructions, and in their values at any depth
(`Executable.resolved_of_validate`). A dump looks nothing else up. It may still stop, at a
constant that does not fit its type, but never at a reference that leads nowhere
(`Executable.dump_code_of_validate`). Neither the types nor the values have to fit for that, and
bound functions may be their own receivers.
-/

namespace BlockIr

/-- A dump is stopped by an id that leads nowhere, or by a phi that has none. -/
def DumpStop.OfReference : DumpStop → Prop
  | .problem (.emptyPhi _) | .problem (.missingInstruction _) | .problem (.missingBlock _) => True
  | _ => False

theorem DumpStop.ofReference_iff {p : DumpError} :
    (problem p).OfReference ↔ p.code ∈ ["IRD006", "IRD007", "IRD008"] := by
  cases p <;> simp [DumpStop.OfReference, DumpError.code]

theorem DumpStop.OfConstant.not_ofReference {p : DumpStop} (h : p.OfConstant) :
    ¬ p.OfReference := by
  cases p with
  | problem p => cases p <;> first | exact fun hr => hr | exact h.elim
  | endless => exact h.elim

namespace Executable

/-- Every id that a dump may look up exists, and every phi has an edge. -/
structure Resolved (e : Executable) : Prop where
  listed : ∀ b ∈ e.blocks.values, ∀ id ∈ b.instructions, id ∈ e.instructions.keys
  operands : ∀ i ∈ e.instructions.values, ∀ id ∈ i.operands, id ∈ e.instructions.keys
  references : ∀ i ∈ e.instructions.values, ∀ id ∈ i.references, id ∈ e.instructions.keys
  targets : ∀ i ∈ e.instructions.values, ∀ id ∈ i.targets, id ∈ e.blocks.keys
  phis : ∀ i ∈ e.instructions.values, i.operation ≠ .phi []

variable {e : Executable}

/-- Every id in an executable that passes the validation exists. -/
theorem resolved_of_validate (h : e.validate.success = true) : e.Resolved := by
  have he := validate_success_iff.mp h
  refine ⟨he.listed, he.operands, ?_, he.targets, he.phis⟩
  intro i hi id hid
  exact he.names i hi id (Value.mem_references_iff.mp hid)

/-! ## What a dump looks up -/

/-- A missing reference is no problem of a constant unless it is one of its receivers. -/
theorem constantText_not_ofReference {receiver : InstrId → Except DumpStop String}
    {i : Instruction} {p : DumpStop}
    (hreceiver : ∀ r ∈ i.references, receiver r = .error p → ¬ p.OfReference)
    (h : i.constantText receiver = .error p) : ¬ p.OfReference := by
  rcases i.constantText_error h with ⟨r, hr, h⟩ | ⟨-, rfl⟩ | ⟨-, rfl | hp⟩
  · exact hreceiver r hr h
  · exact fun hp => hp
  · exact fun hp => hp
  · exact hp.not_ofReference

/-- The chain of receivers of an operand never leaves the arena. -/
theorem Resolved.operandWithin_error (he : e.Resolved) {bound : Nat} {id : InstrId}
    {p : DumpStop} (hid : id ∈ e.instructions.keys)
    (h : e.operandWithin bound id = .error p) : ¬ p.OfReference := by
  induction bound generalizing id with
  | zero =>
    cases h
    exact fun hp => hp
  | succ bound ih =>
    obtain ⟨i, hi⟩ := Table.exists_find?_of_mem_keys hid
    simp only [operandWithin, lookup, hi, ok_bind] at h
    split at h
    · refine constantText_not_ofReference (fun r hr hreceiver => ?_) h
      exact ih (he.references i (Table.mem_values_of_find? hi) r hr) hreceiver
    · cases h

theorem Resolved.operand_error (he : e.Resolved) {id : InstrId} {p : DumpStop}
    (hid : id ∈ e.instructions.keys) (h : e.operand id = .error p) : ¬ p.OfReference :=
  he.operandWithin_error hid h

theorem Resolved.body_error (he : e.Resolved) {i : Instruction} {p : DumpStop}
    (hi : i ∈ e.instructions.values) (h : i.body e = .error p) : ¬ p.OfReference := by
  rcases Instruction.body_error h with ⟨-, h⟩ | ⟨hphi, -⟩ | ⟨_, -, rfl⟩ | ⟨id, hid, h⟩ |
    ⟨id, hid, h⟩
  · refine constantText_not_ofReference (fun r hr hreceiver => ?_) h
    exact he.operand_error (he.references i hi r hr) hreceiver
  · exact absurd hphi (he.phis i hi)
  · exact fun hp => hp
  · exact he.operand_error (he.operands i hi id hid) h
  · have hmissing := Table.find?_eq_none_iff.mp (blockReference_error h).1
    exact absurd (he.targets i hi id hid) hmissing

theorem Resolved.chunkText_error (he : e.Resolved) {margin : Nat} {chunk : Chunk} {p : DumpStop}
    (hchunk : chunk ∈ e.schedule) (h : e.chunkText margin chunk = .error p) :
    ¬ p.OfReference := by
  obtain ⟨id, rfl, ⟨hmissing, -⟩ | ⟨i, hi, h⟩⟩ := Executable.chunkText_error h
  · obtain ⟨b, hb, hid⟩ := line_mem_schedule.mp hchunk
    exact absurd (he.listed b hb id hid) (Table.find?_eq_none_iff.mp hmissing)
  · exact he.body_error (Table.mem_values_of_find? hi) h

/-- A dump of an executable that passes the validation never stops at a phi without edges, at a
missing instruction or at a missing block, at any margin, into a buffer or a stream. -/
theorem dump_code_of_validate (h : e.validate.success = true) (margin : Nat)
    (buffer : BufferSink) (stream : StreamSink) {p : DumpError}
    (hp : (e.dump margin buffer).2 = some (.problem p) ∨
      (e.dump margin stream).2 = some (.problem p)) :
    p.code ∉ ["IRD006", "IRD007", "IRD008"] := by
  rw [← DumpStop.ofReference_iff]
  have he := resolved_of_validate h
  rcases hp with hp | hp
  · rcases dump_error hp with ⟨chunk, hchunk, hp⟩ | ⟨sink, text, refusal, hp, -⟩
    · exact he.chunkText_error hchunk hp
    · cases hp
  · rcases dump_error hp with ⟨chunk, hchunk, hp⟩ | ⟨sink, text, refusal, hp, hrefusal⟩
    · exact he.chunkText_error hchunk hp
    · obtain ⟨reason, rfl⟩ := StreamSink.write_error hp
      rw [hrefusal]
      exact fun hp => hp

/-- A chain of two receivers that ends at data of another kind than its type reads. -/
def misfitChain : Executable where
  blocks := .ofList [(0, ⟨0, "entry", [0, 1, 2, 3]⟩)]
  instructions := .ofList
    [(0, ⟨0, some (.ofPlain .boundFn), 1, .static (.boundFn "f" 1), .const⟩),
     (1, ⟨1, some (.ofPlain .boundFn), 0, .static (.boundFn "g" 2), .const⟩),
     (2, ⟨2, some (.ofPlain .bool), 0, .static .void, .const⟩),
     (3, ⟨3, none, 0, .runtime, .ret 0⟩)]

theorem dump_code_misfitChain :
    misfitChain.validate.success = true ∧
      (misfitChain.dump 2 BufferSink.empty).2 = some (.problem (.mismatch "bool" "bool" "void")) ∧
      (DumpError.mismatch "bool" "bool" "void").code ∉ ["IRD006", "IRD007", "IRD008"] :=
  have hvalid : misfitChain.validate.success = true := by decide
  have hdump : (misfitChain.dump 2 BufferSink.empty).2 =
      some (.problem (.mismatch "bool" "bool" "void")) := rfl
  ⟨hvalid, hdump, dump_code_of_validate hvalid 2 .empty .empty (.inl hdump)⟩

end Executable

end BlockIr
