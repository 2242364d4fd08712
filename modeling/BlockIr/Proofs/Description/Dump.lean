import BlockIr.Proofs.Description.Load
import BlockIr.Proofs.Failure

/-!
# Dumps of descriptions

A load checks what a dump relies on for constants: every value fits the type of its instruction,
at any depth, and every receiver exists. So an operand of a loaded executable fails only if it is
absent itself (`operand_error_of_described`), and a dump stops only at what a load does not look
at: at a constant instruction without a value, at a phi without edges, and at operands and
targets that lead nowhere (`dump_error_of_load`).
-/

namespace BlockIr.Description

variable {e : Executable}

/-- Why the line of a loaded instruction has no text. -/
inductive LineProblem (e : Executable) (i : Instruction) : DumpStop → Prop where
  | runtimeConstant : i.operation = .const → i.value = .runtime →
    LineProblem e i (.problem (.runtimeConstant i.id))
  | emptyPhi : i.operation = .phi [] → LineProblem e i (.problem (.emptyPhi i.id))
  | missingOperand (id : InstrId) : id ∈ i.operands → e.instructions.find? id = none →
    LineProblem e i (.problem (.missingInstruction id))
  | missingTarget (id : BlockId) : id ∈ i.targets → e.blocks.find? id = none →
    LineProblem e i (.problem (.missingBlock id))

/-- A constant has no text only if it is a runtime value, once its receivers have one. -/
theorem constantText_error_of_described (he : Described e) {i : Instruction} {p : DumpStop}
    (hi : i ∈ e.instructions.values)
    (hreceivers : ∀ r ∈ i.references, e.operand r = .error p → e.instructions.find? r = none)
    (h : i.constantText e.operand = .error p) :
    i.value = .runtime ∧ p = .problem (.runtimeConstant i.id) := by
  rcases i.constantText_error h with ⟨r, hr, h⟩ | hruntime | ⟨hmisfit, -⟩
  · have habsent := Table.find?_eq_none_iff.mp (hreceivers r hr h)
    exact absurd (he.references i hi r hr) habsent
  · exact hruntime
  · exact absurd (he.values i hi) hmisfit

/-- An operand has a text if it exists: every chain of receivers ends well. -/
theorem operand_error_of_described (he : Described e) (hself : e.NoSelfReceiver) {id : InstrId}
    {p : DumpStop} (h : e.operand id = .error p) :
    e.instructions.find? id = none ∧ p = .problem (.missingInstruction id) := by
  induction id using Executable.receiver_induction hself generalizing p with
  | step id ih =>
    rcases Executable.operand_error hself h with hmissing | ⟨i, hi, hinlined, h⟩
    · exact hmissing
    · have hreceivers : ∀ r ∈ i.references, e.operand r = .error p →
          e.instructions.find? r = none := fun r hr h => (ih r ⟨i, hi, hr⟩ h).1
      obtain ⟨hruntime, -⟩ :=
        constantText_error_of_described he (Table.mem_values_of_find? hi) hreceivers h
      rw [Instruction.isInlined, hruntime] at hinlined
      cases hinlined

theorem body_error_of_described (he : Described e) (hself : e.NoSelfReceiver) {i : Instruction}
    {p : DumpStop} (hi : i ∈ e.instructions.values) (h : i.body e = .error p) :
    LineProblem e i p := by
  rcases Instruction.body_error h with
    ⟨hop, h⟩ | ⟨hop, rfl⟩ | ⟨kind, hop, rfl⟩ | ⟨id, hid, h⟩ | ⟨id, hid, h⟩
  · obtain ⟨hruntime, rfl⟩ := constantText_error_of_described he hi
      (fun r _ h => (operand_error_of_described he hself h).1) h
    exact .runtimeConstant hop hruntime
  · exact .emptyPhi hop
  · have hrecognised := he.operations i hi
    rw [hop] at hrecognised
    exact hrecognised.elim
  · obtain ⟨habsent, rfl⟩ := operand_error_of_described he hself h
    exact .missingOperand id hid habsent
  · obtain ⟨habsent, rfl⟩ := Executable.blockReference_error h
    exact .missingTarget id hid habsent

/-- A chunk without a text is the line of an instruction that exists and has a problem of its
own. -/
theorem chunkText_error_of_described (he : Described e) (hself : e.NoSelfReceiver) {margin : Nat}
    {chunk : Chunk} {p : DumpStop} (hchunk : chunk ∈ e.schedule)
    (h : e.chunkText margin chunk = .error p) :
    ∃ i, chunk = .line i.id ∧ e.instructions.find? i.id = some i ∧ LineProblem e i p := by
  obtain ⟨id, rfl, ⟨habsent, -⟩ | ⟨i, hi, hbody⟩⟩ := Executable.chunkText_error h
  · have hlisted := Executable.line_mem_schedule.mp hchunk
    rw [← List.mem_flatMap, ← he.arena] at hlisted
    exact absurd hlisted (Table.find?_eq_none_iff.mp habsent)
  · have hid := he.own id i (Table.find?_eq_some_iff.mp hi)
    subst hid
    exact ⟨i, rfl, hi, body_error_of_described he hself (Table.mem_values_of_find? hi) hbody⟩

/-- A dump of a description into a buffer writes the chunks before one line and stops there, if
it stops at all, because the instruction of the line has a problem of its own. A dump into a
stream stops for no other reason but a failure of the stream. -/
theorem dump_error_of_load {doc : Doc} (hload : (load doc).value = some e)
    (hself : e.NoSelfReceiver) (margin : Nat) :
    (∀ (buffer : BufferSink) (p : DumpStop), (e.dump margin buffer).2 = some p →
      ∃ before i after texts, e.schedule = before ++ .line i.id :: after ∧
        before.mapM (e.chunkText margin) = .ok texts ∧
        (e.dump margin buffer).1.text = buffer.text ++ String.join texts ∧
        e.instructions.find? i.id = some i ∧ LineProblem e i p) ∧
    ∀ (stream : StreamSink) (p : DumpStop), (e.dump margin stream).2 = some p →
      (∃ reason, p = .problem (.streamFailed reason)) ∨
        ∃ i, .line i.id ∈ e.schedule ∧ e.instructions.find? i.id = some i ∧
          LineProblem e i p := by
  have he := described_of_load hload
  constructor
  · intro buffer p hp
    obtain ⟨before, chunk, after, texts, hschedule, htexts, hchunk, htext⟩ :=
      Executable.dump_buffer_error (Prod.ext rfl hp)
    have hmem : chunk ∈ e.schedule := by simp [hschedule]
    obtain ⟨i, rfl, hi, hproblem⟩ := chunkText_error_of_described he hself hmem hchunk
    exact ⟨before, i, after, texts, hschedule, htexts, htext, hi, hproblem⟩
  · intro stream p hp
    rcases Executable.dump_error hp with
      ⟨chunk, hmem, hchunk⟩ | ⟨sink, text, refusal, hrefusal, rfl⟩
    · obtain ⟨i, rfl, hi, hproblem⟩ := chunkText_error_of_described he hself hmem hchunk
      exact .inr ⟨i, hmem, hi, hproblem⟩
    · obtain ⟨reason, rfl⟩ := StreamSink.write_error hrefusal
      exact .inl ⟨reason, rfl⟩

/-- A function bound to an array, and a use of an instruction that no block lists. -/
def danglingUse : Doc :=
  .map
    [("types", .map [("pair", .map [("kind", .text "array"), ("child", .text "bool"),
        ("length", .int 2)])]),
     ("blocks", .list
      [.map
        [("id", .int 0), ("name", .text "entry"),
         ("instructions", .list
          [.map [("id", .int 0), ("kind", .text "const"), ("type", .text "(bound fn)"),
            ("value", .map [("fn", .text "f"), ("firstArg", .int 1)])],
           .map [("id", .int 1), ("kind", .text "const"), ("type", .text "pair"),
            ("value", .list [.bool true, .map [("special", .text "undef")]])],
           .map [("id", .int 2), ("kind", .text "store_ptr"), ("ptr", .int 0),
            ("operand", .int 7)]])]])]

theorem dump_error_danglingUse :
    ∃ e, (load danglingUse).value = some e ∧ e.NoSelfReceiver ∧
      (e.dump 2 BufferSink.empty).2 = some (.problem (.missingInstruction 7)) ∧
      ∃ i, e.instructions.find? i.id = some i ∧
        LineProblem e i (.problem (.missingInstruction 7)) := by
  have hload : (load danglingUse).value.isSome = true := by decide +kernel
  obtain ⟨e, he⟩ := Option.isSome_iff_exists.mp hload
  have hnamed : (load danglingUse).value.map (fun e =>
      e.instructions.entries.map fun entry => (entry.1, entry.2.references)) =
        some [(0, [1]), (1, []), (2, [])] := by decide +kernel
  have hdump : (load danglingUse).value.map (fun e => (e.dump 2 BufferSink.empty).2) =
      some (some (.problem (.missingInstruction 7))) := by decide +kernel
  simp only [he, Option.map_some, Option.some.injEq] at hnamed hdump
  have hreceives {a b : InstrId} (h : e.Receives a b) : a = 0 ∧ b = 1 := by
    obtain ⟨i, hi, hb⟩ := h
    have hmem := List.mem_map_of_mem (f := fun entry : InstrId × Instruction =>
      (entry.1, entry.2.references)) (Table.find?_eq_some_iff.mp hi)
    rw [hnamed] at hmem
    simp only [List.mem_cons, Prod.mk.injEq, List.not_mem_nil, or_false] at hmem
    rcases hmem with ⟨ha, hrefs⟩ | ⟨-, hrefs⟩ | ⟨-, hrefs⟩
    · rw [hrefs, List.mem_singleton] at hb
      exact ⟨ha, hb⟩
    · rw [hrefs] at hb
      cases hb
    · rw [hrefs] at hb
      cases hb
  have hself : e.NoSelfReceiver := by
    intro id hcycle
    obtain ⟨_, hfirst, -⟩ := Relation.TransGen.head'_iff.mp hcycle
    obtain ⟨_, -, hlast⟩ := Relation.TransGen.tail'_iff.mp hcycle
    have heq := (hreceives hfirst).1.symm.trans (hreceives hlast).2
    cases heq
  obtain ⟨_, i, _, _, -, -, -, hi, hproblem⟩ :=
    (dump_error_of_load he hself 2).1 .empty _ hdump
  exact ⟨e, he, hself, hdump, i, hi, hproblem⟩

end BlockIr.Description
