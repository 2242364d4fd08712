import BlockIr.Dump.Basic

/-!
# Runs of a stream

A stream and a buffer can be asked for the same: to take a text, or the dump of an executable. A
stream may also fail, at any time and any number of times. Until it fails for the first time, a
stream has been handed what a buffer would hold, also after dumps that stopped halfway. From then
on it is as if frozen: it is handed nothing more, it keeps the first reason, and whoever wants to
write is told that reason, before any line is rendered.

* `Request.run_mirrors`: one request leaves a stream and a buffer alike.
* `StreamSink.step_of_failed`: nothing changes a stream that has failed.
* `StreamSink.run_exact`: what a run leaves behind, and what requests are told afterwards.
-/

namespace BlockIr

/-- What a sink is asked for. -/
inductive Request where
  | write (text : String)
  | dump (e : Executable) (margin : Nat)

namespace Request

/-- The sink after a request, and what stopped it. -/
def run {σ : Type} [Sink σ] (sink : σ) : Request → σ × Option DumpStop
  | .write text =>
    match Sink.write sink text with
    | .ok sink => (sink, none)
    | .error problem => (sink, some (.problem problem))
  | .dump e margin => e.dump margin sink

/-- The sink after some requests; those that fail are given up. -/
def runAll {σ : Type} [Sink σ] (sink : σ) (requests : List Request) : σ :=
  requests.foldl (fun sink request => (request.run sink).1) sink

end Request

/-- What happens to a stream. -/
inductive StreamEvent where
  | request (r : Request)
  | failure (reason : String)

namespace StreamEvent

/-- The reason of the first failure. -/
def firstFailure : List StreamEvent → Option String
  | [] => none
  | .failure reason :: _ => some reason
  | .request _ :: events => firstFailure events

/-- The requests before the first failure. -/
def requestsBefore : List StreamEvent → List Request
  | .request r :: events => r :: requestsBefore events
  | _ => []

end StreamEvent

namespace StreamSink

/-- The stream after an event, and what stopped a request. -/
def step (sink : StreamSink) : StreamEvent → StreamSink × Option DumpStop
  | .request r => r.run sink
  | .failure reason => (sink.fail reason, none)

def run (sink : StreamSink) (events : List StreamEvent) : StreamSink :=
  events.foldl (fun sink event => (sink.step event).1) sink

/-! ## Before the first failure -/

/-- A stream that has not failed, and a buffer that holds what the stream was handed. -/
structure Mirrors (sink : StreamSink) (buffer : BufferSink) : Prop where
  unfailed : sink.failure = none
  text : String.join sink.written = buffer.text

theorem mirrors_empty : Mirrors .empty .empty := ⟨rfl, rfl⟩

/-- Both take a text. -/
theorem Mirrors.write {sink : StreamSink} {buffer : BufferSink} (h : Mirrors sink buffer)
    (text : String) :
    ∃ sink' buffer', Sink.write sink text = .ok sink' ∧ Sink.write buffer text = .ok buffer' ∧
      Mirrors sink' buffer' := by
  refine ⟨{ sink with written := sink.written ++ [text] }, ⟨buffer.text ++ text⟩, ?_, rfl,
    h.unfailed, ?_⟩
  · simp only [Sink.write, h.unfailed]
  · rw [String.join_append, h.text, String.join_cons, String.join_nil, String.append_empty]

/-- Chunk by chunk both take the same, and a chunk without a text stops both. -/
theorem Mirrors.writeChunks {sink : StreamSink} {buffer : BufferSink} (h : Mirrors sink buffer)
    (e : Executable) (margin : Nat) (chunks : List Chunk) :
    Mirrors (e.writeChunks margin chunks sink).1 (e.writeChunks margin chunks buffer).1 ∧
      (e.writeChunks margin chunks sink).2 = (e.writeChunks margin chunks buffer).2 := by
  induction chunks generalizing sink buffer with
  | nil => exact ⟨h, rfl⟩
  | cons chunk rest ih =>
    rw [Executable.writeChunks, Executable.writeChunks]
    cases e.chunkText margin chunk with
    | error stop => exact ⟨h, rfl⟩
    | ok text =>
      obtain ⟨sink', buffer', hsink, hbuffer, h'⟩ := h.write text
      simp only [hsink, hbuffer]
      exact ih h'

end StreamSink

open StreamSink (Mirrors)

namespace Request

/-- One request leaves a stream that has not failed and a buffer alike, and ends alike. -/
theorem run_mirrors {sink : StreamSink} {buffer : BufferSink} (h : Mirrors sink buffer)
    (r : Request) :
    Mirrors (r.run sink).1 (r.run buffer).1 ∧ (r.run sink).2 = (r.run buffer).2 := by
  cases r with
  | write text =>
    obtain ⟨sink', buffer', hsink, hbuffer, h'⟩ := h.write text
    simp only [run, hsink, hbuffer]
    exact ⟨h', trivial⟩
  | dump e margin => exact h.writeChunks e margin e.schedule

end Request

namespace StreamSink

/-! ## After the first failure -/

section Failed

variable {sink : StreamSink} {reason : String}

theorem write_of_failed (h : sink.failure = some reason) (text : String) :
    Sink.write sink text = .error (.streamFailed reason) := by
  simp only [Sink.write, h]

/-- A dump that has anything to write stops at the first label. -/
theorem dump_of_failed (h : sink.failure = some reason) {e : Executable}
    (he : e.blocks.values ≠ []) (margin : Nat) :
    e.dump margin sink = (sink, some (.problem (.streamFailed reason))) := by
  obtain ⟨b, blocks, hblocks⟩ := List.exists_cons_of_ne_nil he
  rw [Executable.dump, Executable.schedule, hblocks, List.flatMap_cons, Block.chunks,
    List.cons_append, Executable.writeChunks]
  simp only [Executable.chunkText, write_of_failed h]

theorem dump_of_noBlocks {e : Executable} (he : e.blocks.values = []) (margin : Nat) :
    e.dump margin sink = (sink, none) := by
  rw [Executable.dump, Executable.schedule, he]
  rfl

/-- Nothing changes a stream that has failed. -/
theorem step_of_failed (h : sink.failure = some reason) (event : StreamEvent) :
    (sink.step event).1 = sink := by
  cases event with
  | failure later =>
    simp only [step, fail, h]
    exact congrArg (StreamSink.mk sink.written) h.symm
  | request r =>
    cases r with
    | write text => simp only [step, Request.run, write_of_failed h]
    | dump e margin =>
      rw [step, Request.run]
      by_cases he : e.blocks.values = []
      · rw [dump_of_noBlocks he]
      · rw [dump_of_failed h he]

theorem run_of_failed (h : sink.failure = some reason) (events : List StreamEvent) :
    sink.run events = sink := by
  induction events with
  | nil => rfl
  | cons event events ih =>
    rw [run, List.foldl_cons, step_of_failed h event]
    exact ih

end Failed

/-! ## Runs -/

/-- A run hands on what the requests before the first failure write, and keeps its reason. -/
theorem run_mirrors_before {sink : StreamSink} {buffer : BufferSink} (h : Mirrors sink buffer)
    (events : List StreamEvent) :
    String.join (sink.run events).written =
        (Request.runAll buffer (StreamEvent.requestsBefore events)).text ∧
      (sink.run events).failure = StreamEvent.firstFailure events := by
  induction events generalizing sink buffer with
  | nil => exact ⟨h.text, h.unfailed⟩
  | cons event events ih =>
    rw [run, List.foldl_cons]
    cases event with
    | request r => exact ih (r.run_mirrors h).1
    | failure reason =>
      have hfailed : (sink.fail reason).failure = some reason := by
        simp only [fail, h.unfailed]
        rfl
      have hrun : (sink.fail reason).run events = sink.fail reason := run_of_failed hfailed events
      exact ⟨(congrArg (fun s => String.join s.written) hrun).trans h.text,
        (congrArg StreamSink.failure hrun).trans hfailed⟩

/-- After any run of a stream, the chunks it was handed are what a buffer holds after the requests
before the first failure, and the failure it shows is the first one. Without a failure it answers
requests as that buffer does. After a failure, whatever happens leaves it as it is, and a text, or
a dump with at least one block, is refused with the first reason, empty or not, and whatever the
lines of the dump are. -/
theorem run_exact (events : List StreamEvent) :
    String.join (empty.run events).written =
        (Request.runAll BufferSink.empty (StreamEvent.requestsBefore events)).text ∧
      (empty.run events).failure = StreamEvent.firstFailure events ∧
      (StreamEvent.firstFailure events = none → ∀ r : Request, (r.run (empty.run events)).2 =
        (r.run (Request.runAll BufferSink.empty (StreamEvent.requestsBefore events))).2) ∧
      ∀ reason, StreamEvent.firstFailure events = some reason →
        (∀ later, empty.run (events ++ later) = empty.run events) ∧
        ∃ problem : DumpError, problem.code = "IRD011" ∧ problem.detail = reason ∧
          (∀ text, (Request.write text).run (empty.run events) =
            (empty.run events, some (.problem problem))) ∧
          ∀ (e : Executable) (margin : Nat), e.blocks.values ≠ [] →
            (Request.dump e margin).run (empty.run events) =
              (empty.run events, some (.problem problem)) := by
  obtain ⟨htext, hfailure⟩ := run_mirrors_before mirrors_empty events
  refine ⟨htext, hfailure, ?_, ?_⟩
  · intro hnone r
    exact (r.run_mirrors ⟨hfailure.trans hnone, htext⟩).2
  · intro reason hreason
    have hfailed := hfailure.trans hreason
    refine ⟨?_, .streamFailed reason, rfl, rfl, ?_,
      fun e margin he => dump_of_failed hfailed he margin⟩
    · intro later
      rw [run, List.foldl_append]
      exact run_of_failed hfailed later
    · intro text
      simp only [Request.run, write_of_failed hfailed]

/-- A block that lists an instruction that does not exist. -/
def cutShort : Executable where
  blocks := .ofList [(0, ⟨0, "entry", [0, 7]⟩)]
  instructions := .ofList [(0, ⟨0, none, 0, .runtime, .unreachable⟩)]

/-- A dump stops halfway, then the stream fails twice, the first time without a message. -/
def troubledRun : List StreamEvent :=
  [.request (.write "; "), .request (.dump cutShort 0), .failure "", .request (.write "lost"),
    .failure "too late"]

theorem run_troubledRun :
    (empty.run troubledRun).failure = some "" ∧
      String.join (empty.run troubledRun).written =
        "; entry_0:\n#0  | (unknown)   | - | unreachable\n" ∧
      (∀ later, empty.run (troubledRun ++ later) = empty.run troubledRun) ∧
      ∃ problem : DumpError, problem.code = "IRD011" ∧ problem.detail = "" ∧
        (Request.dump cutShort 4).run (empty.run troubledRun) =
          (empty.run troubledRun, some (.problem problem)) := by
  obtain ⟨htext, hfailure, -, hfailed⟩ := run_exact troubledRun
  obtain ⟨hkept, problem, hcode, hdetail, -, hdump⟩ := hfailed "" rfl
  have hbuffer : (Request.runAll BufferSink.empty (StreamEvent.requestsBefore troubledRun)).text =
      "; entry_0:\n#0  | (unknown)   | - | unreachable\n" := by
    decide +kernel
  exact ⟨hfailure, htext.trans hbuffer, hkept, problem, hcode, hdetail,
    hdump cutShort 4 (by decide)⟩

end StreamSink

end BlockIr
