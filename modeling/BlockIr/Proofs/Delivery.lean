import BlockIr.Command.Run
import BlockIr.Proofs.PartialDump
import BlockIr.Proofs.Description.Source

/-!
# What a command delivers

A command that succeeds has put the whole dump into one place, the file or the standard output,
and has shown nothing but warnings. A command that fails has shown an error and has written no
file. Only a dump that goes to the standard output may leave something there when it fails: the
labels and lines before the instruction that has no line. A check before the dump decides
whether there is one, and changes nothing else. All of this holds with any parser of sources.

* `Executable.dump_of_format_ok`, `Executable.dump_of_format_error`: a dump into a buffer that
  holds something already.
* `Command.run_ends`: the ways in which a command ends.
* `Command.run_endless_iff`, `Command.run_noMargin_iff`: when a command breaks off in its delivery.
* `Command.dumpFile_checked`: the same command with a check and without one.
* `Command.run_delivers`: what is delivered and shown at each exit code.
-/

namespace BlockIr

/-! ## Dumps into a buffer in use -/

/-- What is in a buffer after a dump into it was stopped: the labels and lines before the first
instruction that has no line. -/
def Executable.CutShort (e : Executable) (margin : Nat) (stop : DumpStop)
    (before after : BufferSink) : Prop :=
  ∃ done id rest texts, e.schedule = done ++ .line id :: rest ∧
    done.mapM (e.chunkText margin) = .ok texts ∧
    e.chunkText margin (.line id) = .error stop ∧
    after.text = before.text ++ String.join texts

namespace Executable

variable {e : Executable} {margin : Nat} {stop : DumpStop}

/-- A dump that has a text is appended to what a buffer holds. -/
theorem dump_of_format_ok {text : String} (h : e.format margin = .ok text) (before : BufferSink) :
    e.dump margin before = (⟨before.text ++ text⟩, none) := by
  rw [format] at h
  split at h
  · rename_i sink hdump
    cases h
    obtain ⟨texts, htexts, hsink⟩ := dump_complete_iff.mp hdump
    refine dump_complete_iff.mpr ⟨texts, htexts, ?_⟩
    rw [hsink, BufferSink.empty, String.empty_append]
  · cases h

/-- A dump that has no text stops in every buffer, whatever it holds. -/
theorem dump_of_format_error (h : e.format margin = .error stop) (before : BufferSink) :
    ∃ after, e.dump margin before = (after, some stop) ∧
      e.CutShort margin stop before after := by
  rw [format] at h
  split at h
  · cases h
  · rename_i sink stop hdump
    cases h
    obtain ⟨l, texts, htexts, hline, -⟩ := dump_stops_iff.mp hdump
    obtain ⟨rest, hschedule⟩ := l.schedule_eq
    refine ⟨⟨before.text ++ String.join texts⟩, ?_, ?_⟩
    · exact dump_stops_iff.mpr ⟨l, texts, htexts, hline, rfl⟩
    · exact ⟨l.scheduled, l.id, rest, texts, hschedule, htexts,
        chunkText_line_eq_error.mpr hline, rfl⟩

end Executable

namespace Command

/-! ## Transcripts on the way -/

variable {θ : Type}

/-- A line that shows a message of a severity. -/
def Shows (severity : Severity) (line : String) : Prop :=
  ∃ m : Message, m.severity = severity ∧ line = m.line

/-- Nothing is delivered yet, and nothing but warnings is shown. -/
structure Pending (before : BufferSink) (t : Transcript θ BufferSink) : Prop where
  stdout : t.stdout = before
  written : t.written = []
  errors : ∀ line ∈ t.errors, Shows .warning line
  ending : t.ending = .exit 0

/-- The command has failed: it shows an error, and no file is written. -/
structure Failed (t : Transcript θ BufferSink) : Prop where
  ending : t.ending = .exit 1
  errors : ∃ line ∈ t.errors, Shows .error line
  written : t.written = []

/-- The command has failed, and nothing is delivered. -/
structure Refused (before : BufferSink) (t : Transcript θ BufferSink) : Prop
    extends Failed t where
  stdout : t.stdout = before

variable {ε α : Type} [Diagnostic ε] {before : BufferSink} {t : Transcript θ BufferSink}

theorem pending_start (before : BufferSink) :
    Pending before (.start before : Transcript θ BufferSink) :=
  ⟨rfl, rfl, nofun, rfl⟩

namespace Pending

theorem report (h : Pending before t) {problems : List ε}
    (hwarnings : ∀ m ∈ problems, (message m).severity = .warning) :
    Pending before (t.report problems) where
  stdout := h.stdout
  written := h.written
  errors line hline := by
    rcases List.mem_append.mp hline with hline | hline
    · exact h.errors line hline
    · obtain ⟨m, hm, rfl⟩ := List.mem_map.mp hline
      exact ⟨message m, hwarnings m hm, rfl⟩
  ending := h.ending

theorem fail (h : Pending before t) {problems : List ε} {problem : ε} (hmem : problem ∈ problems)
    (herror : (message problem).severity = .error) : Refused before (t.fail problems) where
  ending := rfl
  errors := ⟨(message problem).line, List.mem_append_right _ (List.mem_map_of_mem hmem),
    message problem, herror, rfl⟩
  written := h.written
  stdout := h.stdout

/-- After a step that reports its problems the command goes on, or it has failed. -/
theorem proceed (h : Pending before t) {o : Outcome ε α}
    (herrors : o.value = none → o.errors ≠ [])
    (next : α → Transcript θ BufferSink → Transcript θ BufferSink) :
    (∃ a p, o.value = some a ∧ Pending before p ∧ Command.proceed o next t = next a p) ∨
      (o.value = none ∧ Refused before (Command.proceed o next t)) := by
  have hreport : Pending before (t.report o.warnings) :=
    h.report fun m hm => beq_iff_eq.mp (List.mem_filter.mp hm).2
  unfold Command.proceed
  cases hvalue : o.value with
  | some a => exact .inl ⟨a, _, rfl, hreport, rfl⟩
  | none =>
    obtain ⟨problem, hproblem⟩ := List.exists_mem_of_ne_nil _ (herrors hvalue)
    exact .inr ⟨rfl, hreport.fail hproblem (beq_iff_eq.mp (List.mem_filter.mp hproblem).2)⟩

end Pending

/-! ## Stages of a command -/

/-- The file at a path describes an executable. -/
def Loads (parser : Description.Parser θ) (disk : Disk) (path : String) (e : Executable) : Prop :=
  ∃ source loaded, disk.read path = .ok source ∧
    Description.loadSource parser source = .ok loaded ∧ loaded.value = some e

/-- The executable that the file at a path describes. -/
def executable? (parser : Description.Parser θ) (disk : Disk) (path : String) :
    Option Executable := do
  let source ← (disk.read path).toOption
  let loaded ← (Description.loadSource parser source).toOption
  loaded.value

/-- An executable passes the check, if it is asked for. -/
def DumpOptions.Admits (options : DumpOptions) (e : Executable) : Prop :=
  options.validate = true → e.validate.errors = []

/-- The arguments ask for a dump, and it comes to the dump of `e`. -/
structure Renders (parser : Description.Parser θ) (disk : Disk) (arguments : List String)
    (options : DumpOptions) (e : Executable) (margin : Nat) : Prop where
  parsed : parse arguments = .ok (.dump options)
  loads : Loads parser disk options.file e
  admits : options.Admits e
  margin : margin? options.indent = .ok margin

/-- The whole dump is in the one place it was asked for, and nothing is in another place. -/
def Delivered (disk : Disk) (output : Option String) (before : BufferSink) (text : String)
    (t : Transcript θ BufferSink) : Prop :=
  match output with
  | none => t.stdout.text = before.text ++ text ∧ t.written = []
  | some path =>
    disk.write path text = .ok () ∧ t.stdout = before ∧ t.written = [(path, text)]

variable {parser : Description.Parser θ} {disk : Disk} {arguments : List String}
  {options options' : DumpOptions} {e e' : Executable} {margin : Nat}

theorem loads_of_executable? {path : String} (h : executable? parser disk path = some e) :
    Loads parser disk path e := by
  obtain ⟨source, hread, h⟩ := Option.bind_eq_some_iff.mp h
  obtain ⟨loaded, hload, hvalue⟩ := Option.bind_eq_some_iff.mp h
  exact ⟨source, loaded, toOption_eq_some.mp hread, toOption_eq_some.mp hload, hvalue⟩

theorem Loads.unique {path : String} (h : Loads parser disk path e)
    (h' : Loads parser disk path e') : e = e' := by
  obtain ⟨source, loaded, hread, hload, hvalue⟩ := h
  obtain ⟨source', loaded', hread', hload', hvalue'⟩ := h'
  cases hread.symm.trans hread'
  cases hload.symm.trans hload'
  exact Option.some.inj (hvalue.symm.trans hvalue')

/-- A source that describes nothing gives an error. -/
theorem errors_ne_nil_of_loadSource {source : String} {loaded : Outcome LoadError Executable}
    (h : Description.loadSource parser source = .ok loaded) (hnone : loaded.value = none) :
    loaded.errors ≠ [] := by
  intro hnil
  have hsuccess := (Description.report_of_loadSource h).2.mpr hnil
  rw [Outcome.success, hnone] at hsuccess
  cases hsuccess

theorem Pending.check (h : Pending before t) (disk : Disk) (options : DumpOptions)
    (e : Executable) :
    (options.Admits e ∧ ∃ p, Pending before p ∧ check disk options e t = deliver disk options e p) ∨
      (¬ options.Admits e ∧ Refused before (check disk options e t)) := by
  unfold Command.check
  cases hvalidate : options.validate with
  | false =>
    refine .inl ⟨fun h => ?_, t, h, rfl⟩
    rw [hvalidate] at h
    cases h
  | true =>
    have herrors : e.validate.value = none → e.validate.errors ≠ [] := by
      intro hnone hnil
      rw [Executable.value_validate, if_pos hnil] at hnone
      cases hnone
    rcases h.proceed herrors (deliver disk options) with ⟨a, p, hvalue, hp, hrun⟩ | ⟨hnone, hrun⟩
    · rw [Executable.value_validate] at hvalue
      split at hvalue
      · rename_i hnil
        cases hvalue
        exact .inl ⟨fun _ => hnil, p, hp, hrun⟩
      · cases hvalue
    · exact .inr ⟨fun hadmits => herrors hnone (hadmits hvalidate), hrun⟩

/-! ## Ends of a command -/

/-- The ways in which a command ends. -/
inductive Ends (parser : Description.Parser θ) (disk : Disk) (arguments : List String)
    (before : BufferSink) : Transcript θ BufferSink → Prop where
  | help {t : Transcript θ BufferSink} : parse arguments = .ok .help → t.ending = .exit 0 →
    Ends parser disk arguments before t
  /-- The parser throws. -/
  | contents {t : Transcript θ BufferSink} {x : θ} :
    t.ending = .breakdown (.contents x) → Ends parser disk arguments before t
  /-- There is no such margin. -/
  | margin {t : Transcript θ BufferSink} {options : DumpOptions} {e : Executable}
    {bad : MarginError} : parse arguments = .ok (.dump options) →
    Loads parser disk options.file e → options.Admits e → margin? options.indent = .error bad →
    t.ending = .breakdown (.margin bad) → Ends parser disk arguments before t
  /-- In the middle of a text that has no end. -/
  | endless {t : Transcript θ BufferSink} {options : DumpOptions} {e : Executable} {margin : Nat} :
    Renders parser disk arguments options e margin → e.format margin = .error .endless →
    t.ending = .breakdown .endless → Ends parser disk arguments before t
  | delivered {t : Transcript θ BufferSink} {options : DumpOptions} {e : Executable}
    {margin : Nat} {text : String} : Renders parser disk arguments options e margin →
    e.format margin = .ok text → Delivered disk options.output before text t →
    (∀ line ∈ t.errors, Shows .warning line) → t.ending = .exit 0 →
    Ends parser disk arguments before t
  /-- In the middle of a dump to the standard output. -/
  | cutShort {t : Transcript θ BufferSink} {options : DumpOptions} {e : Executable} {margin : Nat}
    {p : DumpError} : Renders parser disk arguments options e margin → options.output = none →
    e.CutShort margin (.problem p) before t.stdout → Failed t → Ends parser disk arguments before t
  | refused {t : Transcript θ BufferSink} :
    (∀ options e margin, Renders parser disk arguments options e margin →
      options.output ≠ none) →
    Refused before t → Ends parser disk arguments before t

theorem deliver_noMargin {bad : MarginError} (h : margin? options.indent = .error bad)
    (t : Transcript θ BufferSink) :
    (deliver disk options e t).ending = .breakdown (.margin bad) := by
  simp only [deliver, h]
  rfl

theorem Pending.deliver (h : Pending before t)
    (hr : Renders parser disk arguments options e margin) :
    Ends parser disk arguments before (deliver disk options e t) := by
  cases houtput : options.output with
  | none =>
    have hdeliver : Command.deliver disk options e t = deliverOutput e margin t := by
      simp only [Command.deliver, hr.margin, houtput]
    rw [hdeliver, deliverOutput, h.stdout]
    cases hformat : e.format margin with
    | ok text =>
      rw [Executable.dump_of_format_ok hformat before]
      refine .delivered hr hformat ?_ h.errors h.ending
      rw [houtput]
      exact ⟨rfl, h.written⟩
    | error stop =>
      obtain ⟨after, hdump, hcut⟩ := Executable.dump_of_format_error hformat before
      rw [hdump]
      cases stop with
      | problem p =>
        have hafter : Pending after { t with stdout := after } :=
          ⟨rfl, h.written, h.errors, h.ending⟩
        exact .cutShort hr houtput hcut (hafter.fail (List.mem_singleton_self p) rfl).toFailed
      | endless => exact .endless hr hformat rfl
  | some path =>
    have hplace (options' : DumpOptions) (e' : Executable) (margin' : Nat)
        (hr' : Renders parser disk arguments options' e' margin') : options'.output ≠ none := by
      cases hr.parsed.symm.trans hr'.parsed
      rw [houtput]
      exact Option.some_ne_none path
    cases hformat : e.format margin with
    | error stop =>
      have hdeliver : Command.deliver disk options e t = t.stop stop := by
        simp only [Command.deliver, hr.margin, houtput, hformat]
      rw [hdeliver]
      cases stop with
      | problem p => exact .refused hplace (h.fail (List.mem_singleton_self p) rfl)
      | endless => exact .endless hr hformat rfl
    | ok text =>
      have hdeliver : Command.deliver disk options e t = deliverFile disk path text t := by
        simp only [Command.deliver, hr.margin, houtput, hformat]
      rw [hdeliver, deliverFile]
      cases hwrite : disk.write path text with
      | error reason =>
        exact .refused hplace
          (h.fail (List.mem_singleton_self (FileError.unwritable path reason)) rfl)
      | ok _ =>
        refine .delivered hr hformat ?_ h.errors h.ending
        rw [houtput]
        exact ⟨hwrite, h.stdout, by rw [h.written, List.nil_append]⟩

theorem dumpFile_ends (hparse : parse arguments = .ok (.dump options)) (before : BufferSink) :
    Ends parser disk arguments before (dumpFile parser disk options (.start before)) := by
  have h : Pending before (.start before : Transcript θ BufferSink) := pending_start before
  -- Whatever is dumped is dumped by these options.
  have hoptions {options' : DumpOptions} {e : Executable} {margin : Nat}
      (hr : Renders parser disk arguments options' e margin) : options' = options := by
    cases hparse.symm.trans hr.parsed
    rfl
  have hloaded {e : Executable} {options' : DumpOptions} {margin : Nat}
      (hr : Renders parser disk arguments options' e margin) : Loads parser disk options.file e :=
    hoptions hr ▸ hr.loads
  unfold dumpFile
  cases hread : disk.read options.file with
  | error reason =>
    refine .refused (fun options' e margin hr => ?_)
      (h.fail (List.mem_singleton_self (FileError.unreadable options.file reason)) rfl)
    obtain ⟨source, _, hsource, -⟩ := hloaded hr
    cases hread.symm.trans hsource
  | ok source =>
    cases hload : Description.loadSource parser source with
    | error thrown => exact .contents (x := thrown) (by simp only [hload]; rfl)
    | ok loaded =>
      simp only [hload]
      rcases h.proceed (errors_ne_nil_of_loadSource hload) (check disk options) with
        ⟨e, p, hvalue, hp, hrun⟩ | ⟨hnone, hrun⟩
      · rw [hrun]
        have hloads : Loads parser disk options.file e := ⟨source, loaded, hread, hload, hvalue⟩
        rcases hp.check disk options e with ⟨hadmits, q, hq, hcheck⟩ | ⟨hadmits, hcheck⟩
        · rw [hcheck]
          cases hmargin : margin? options.indent with
          | error bad =>
            exact .margin hparse hloads hadmits hmargin (deliver_noMargin hmargin q)
          | ok margin => exact hq.deliver ⟨hparse, hloads, hadmits, hmargin⟩
        · refine .refused (fun options' e' margin hr => ?_) hcheck
          obtain rfl := hloads.unique (hloaded hr)
          exact absurd (hoptions hr ▸ hr.admits) hadmits
      · refine .refused (fun options' e margin hr => ?_) hrun
        obtain ⟨source', loaded', hread', hload', hvalue⟩ := hloaded hr
        cases hread.symm.trans hread'
        cases hload.symm.trans hload'
        cases hnone.symm.trans hvalue

theorem run_of_parse (parser : Description.Parser θ) (disk : Disk) (before : BufferSink)
    (h : parse arguments = .ok (.dump options)) :
    run parser disk arguments before = dumpFile parser disk options (.start before) := by
  simp only [run, h]

/-- A command ends in one of these ways. -/
theorem run_ends (parser : Description.Parser θ) (disk : Disk) (arguments : List String)
    (before : BufferSink) :
    Ends parser disk arguments before (run parser disk arguments before) := by
  unfold run
  cases hparse : parse arguments with
  | error usage =>
    refine .refused (fun options e margin hr => ?_)
      ((pending_start before).fail (List.mem_singleton_self usage) rfl)
    cases hparse.symm.trans hr.parsed
  | ok request =>
    cases request with
    | help => exact .help hparse rfl
    | dump options => exact dumpFile_ends hparse before

/-! ## With a check and without one -/

/-- Two commands that end alike and deliver the same to the same place. -/
structure SameDelivery (t t' : Transcript θ BufferSink) : Prop where
  ending : t.ending = t'.ending
  stdout : t.stdout = t'.stdout
  written : t.written = t'.written

variable {t' : Transcript θ BufferSink}

theorem Pending.sameDelivery (h : Pending before t) (h' : Pending before t') :
    SameDelivery t t' where
  ending := h.ending.trans h'.ending.symm
  stdout := h.stdout.trans h'.stdout.symm
  written := h.written.trans h'.written.symm

theorem SameDelivery.fail (h : SameDelivery t t') (problems : List ε) :
    SameDelivery (t.fail problems) (t'.fail problems) :=
  ⟨rfl, h.stdout, h.written⟩

theorem SameDelivery.stop (h : SameDelivery t t') (stop : DumpStop) :
    SameDelivery (t.stop stop) (t'.stop stop) := by
  cases stop with
  | problem p => exact h.fail [p]
  | endless => exact ⟨rfl, h.stdout, h.written⟩

/-- What is delivered does not depend on the warnings that were shown, nor on the check. -/
theorem SameDelivery.deliver (h : SameDelivery t t') (hindent : options'.indent = options.indent)
    (houtput : options'.output = options.output) :
    SameDelivery (deliver disk options' e t) (deliver disk options e t') := by
  unfold Command.deliver
  rw [hindent, houtput]
  cases margin? options.indent with
  | error bad => exact ⟨rfl, h.stdout, h.written⟩
  | ok margin =>
    cases options.output with
    | none =>
      simp only [deliverOutput, h.stdout]
      rcases e.dump margin t'.stdout with ⟨stdout, _ | stop⟩
      · exact ⟨h.ending, rfl, h.written⟩
      · have hstdout : SameDelivery { t with stdout } { t' with stdout } :=
          ⟨h.ending, rfl, h.written⟩
        exact hstdout.stop stop
    | some path =>
      cases hformat : e.format margin with
      | error stop =>
        simp only [hformat]
        exact h.stop stop
      | ok text =>
        simp only [hformat, deliverFile]
        cases disk.write path text with
        | error reason => exact h.fail [FileError.unwritable path reason]
        | ok _ => exact ⟨h.ending, h.stdout, congrArg (· ++ [(path, text)]) h.written⟩

/-- A command whose file describes an executable comes to the check. -/
theorem dumpFile_of_loads (options : DumpOptions) (h : Loads parser disk options.file e)
    (before : BufferSink) :
    ∃ p, Pending before p ∧
      dumpFile parser disk options (.start before) = check disk options e p := by
  obtain ⟨source, loaded, hread, hload, hvalue⟩ := h
  rcases (pending_start before).proceed (errors_ne_nil_of_loadSource hload)
    (check disk options) with ⟨e', p, hvalue', hp, hrun⟩ | ⟨hnone, -⟩
  · obtain rfl : e = e' := Option.some.inj (hvalue.symm.trans hvalue')
    refine ⟨p, hp, ?_⟩
    rw [← hrun]
    simp only [dumpFile, hread, hload]
  · cases hnone.symm.trans hvalue

/-- A check that passes changes nothing but what is shown, and one that does not pass keeps
everything back. -/
theorem dumpFile_checked (hloads : Loads parser disk options.file e) (before : BufferSink) :
    (e.validate.errors = [] →
      SameDelivery (dumpFile parser disk { options with validate := true } (.start before))
        (dumpFile parser disk { options with validate := false } (.start before))) ∧
      (e.validate.errors ≠ [] →
        Refused before
          (dumpFile parser disk { options with validate := true } (.start before))) := by
  obtain ⟨p, hp, hchecked⟩ :=
    dumpFile_of_loads { options with validate := true } hloads before
  obtain ⟨q, hq, hplain⟩ :=
    dumpFile_of_loads { options with validate := false } hloads before
  rw [hchecked, hplain]
  rcases hp.check disk { options with validate := true } e with
    ⟨hadmits, p', hp', hcheck⟩ | ⟨hadmits, hrefused⟩
  · refine ⟨fun _ => ?_, fun hne => absurd (hadmits rfl) hne⟩
    rw [hcheck]
    exact (hp'.sameDelivery hq).deliver rfl rfl
  · exact ⟨fun hnil => absurd (fun _ => hnil) hadmits, fun _ => hrefused⟩

/-! ## Commands without an exit code -/

/-- A command whose executable passes the check comes to the delivery. -/
theorem run_of_admits (hparse : parse arguments = .ok (.dump options))
    (hloads : Loads parser disk options.file e) (hadmits : options.Admits e)
    (before : BufferSink) :
    ∃ p, Pending before p ∧ run parser disk arguments before = deliver disk options e p := by
  obtain ⟨p, hp, hcheck⟩ := dumpFile_of_loads options hloads before
  rw [run_of_parse parser disk before hparse, hcheck]
  rcases hp.check disk options e with ⟨-, hdeliver⟩ | ⟨hrefused, -⟩
  · exact hdeliver
  · exact absurd hadmits hrefused

/-- A dump without an end ends the command, wherever it goes. -/
theorem deliver_endless (hmargin : margin? options.indent = .ok margin)
    (hformat : e.format margin = .error .endless) (t : Transcript θ BufferSink) :
    (deliver disk options e t).ending = .breakdown .endless := by
  unfold deliver
  rw [hmargin]
  cases options.output with
  | none =>
    obtain ⟨after, hdump, -⟩ := Executable.dump_of_format_error hformat t.stdout
    simp only [deliverOutput, hdump]
    rfl
  | some path =>
    simp only [hformat]
    rfl

/-- A command breaks off over a text without an end if and only if it comes to the dump of an
executable that has such a text. -/
theorem run_endless_iff (parser : Description.Parser θ) (disk : Disk) (arguments : List String)
    (before : BufferSink) :
    (run parser disk arguments before).ending = .breakdown .endless ↔
      ∃ options e margin, Renders parser disk arguments options e margin ∧
        e.format margin = .error .endless := by
  constructor
  · intro hendless
    cases run_ends parser disk arguments before with
    | endless hr hformat => exact ⟨_, _, _, hr, hformat⟩
    | help _ hend | contents hend | margin _ _ _ _ hend | delivered _ _ _ _ hend =>
      cases hendless.symm.trans hend
    | cutShort _ _ _ hfailed => cases hendless.symm.trans hfailed.ending
    | refused _ hrefused => cases hendless.symm.trans hrefused.ending
  · rintro ⟨options, e, margin, hr, hformat⟩
    obtain ⟨p, -, hrun⟩ := run_of_admits hr.parsed hr.loads hr.admits before
    rw [hrun]
    exact deliver_endless hr.margin hformat p

/-- A command breaks off because of its margin if and only if it comes to the delivery and there
is no such margin. -/
theorem run_noMargin_iff (parser : Description.Parser θ) (disk : Disk) (arguments : List String)
    (before : BufferSink) (bad : MarginError) :
    (run parser disk arguments before).ending = .breakdown (.margin bad) ↔
      ∃ options e, parse arguments = .ok (.dump options) ∧ Loads parser disk options.file e ∧
        options.Admits e ∧ margin? options.indent = .error bad := by
  constructor
  · intro hbad
    cases run_ends parser disk arguments before with
    | margin hparse hloads hadmits hmargin hend =>
      cases hbad.symm.trans hend
      exact ⟨_, _, hparse, hloads, hadmits, hmargin⟩
    | help _ hend | contents hend | endless _ _ hend | delivered _ _ _ _ hend =>
      cases hbad.symm.trans hend
    | cutShort _ _ _ hfailed => cases hbad.symm.trans hfailed.ending
    | refused _ hrefused => cases hbad.symm.trans hrefused.ending
  · rintro ⟨options, e, hparse, hloads, hadmits, hmargin⟩
    obtain ⟨p, -, hrun⟩ := run_of_admits hparse hloads hadmits before
    rw [hrun]
    exact deliver_noMargin hmargin p

/-! ## What is delivered -/

/-- A command that ends with zero and was not asked for help has delivered the whole dump to the
place that was asked for, and shows nothing but warnings. A command that ends with one shows an
error and has written no file; what it leaves on the standard output is a dump that was cut
short, if the dump was to go there. There is no other exit code, and none at all if the dump has a
text without an end. The check decides whether anything is delivered, and not what or where. -/
theorem run_delivers (parser : Description.Parser θ) (disk : Disk) (before : BufferSink) :
    (∀ arguments, (run parser disk arguments before).ending = .exit 0 →
      parse arguments ≠ .ok .help →
      ∃ options e margin text, Renders parser disk arguments options e margin ∧
        e.format margin = .ok text ∧
        Delivered disk options.output before text (run parser disk arguments before) ∧
        ∀ line ∈ (run parser disk arguments before).errors, Shows .warning line) ∧
      (∀ arguments, (run parser disk arguments before).ending = .exit 1 →
        (∃ line ∈ (run parser disk arguments before).errors, Shows .error line) ∧
        (run parser disk arguments before).written = [] ∧
        ((∃ options e margin p, Renders parser disk arguments options e margin ∧
            options.output = none ∧
            e.CutShort margin (.problem p) before (run parser disk arguments before).stdout) ∨
          ((∀ options e margin, Renders parser disk arguments options e margin →
              options.output ≠ none) ∧
            (run parser disk arguments before).stdout = before))) ∧
      (∀ arguments code, (run parser disk arguments before).ending = .exit code →
        code = 0 ∨ code = 1) ∧
      (∀ arguments, (run parser disk arguments before).ending = .breakdown .endless ↔
        ∃ options e margin, Renders parser disk arguments options e margin ∧
          e.format margin = .error .endless) ∧
      ∀ (plain checked : List String) (options : DumpOptions) (e : Executable),
        parse plain = .ok (.dump { options with validate := false }) →
        parse checked = .ok (.dump { options with validate := true }) →
        Loads parser disk options.file e →
        (e.validate.errors = [] →
          SameDelivery (run parser disk checked before) (run parser disk plain before)) ∧
        (e.validate.errors ≠ [] → Refused before (run parser disk checked before)) := by
  refine ⟨fun arguments hexit hhelp => ?_, fun arguments hexit => ?_,
    fun arguments code hexit => ?_, fun arguments => run_endless_iff parser disk arguments before,
    fun plain checked options e hplain hchecked hloads => ?_⟩
  · cases run_ends parser disk arguments before with
    | help hparse => exact absurd hparse hhelp
    | contents hbroken | margin _ _ _ _ hbroken | endless _ _ hbroken =>
      cases hexit.symm.trans hbroken
    | delivered hr hformat hdelivered hwarnings =>
      exact ⟨_, _, _, _, hr, hformat, hdelivered, hwarnings⟩
    | cutShort _ _ _ hfailed => cases hexit.symm.trans hfailed.ending
    | refused _ hrefused => cases hexit.symm.trans hrefused.ending
  · cases run_ends parser disk arguments before with
    | help _ hzero => cases hexit.symm.trans hzero
    | contents hbroken | margin _ _ _ _ hbroken | endless _ _ hbroken =>
      cases hexit.symm.trans hbroken
    | delivered _ _ _ _ hzero => cases hexit.symm.trans hzero
    | cutShort hr houtput hcut hfailed =>
      exact ⟨hfailed.errors, hfailed.written, .inl ⟨_, _, _, _, hr, houtput, hcut⟩⟩
    | refused hplace hrefused =>
      exact ⟨hrefused.errors, hrefused.written, .inr ⟨hplace, hrefused.stdout⟩⟩
  · cases run_ends parser disk arguments before with
    | help _ hzero | delivered _ _ _ _ hzero =>
      cases hexit.symm.trans hzero
      exact .inl rfl
    | contents hbroken | margin _ _ _ _ hbroken | endless _ _ hbroken =>
      cases hexit.symm.trans hbroken
    | cutShort _ _ _ hfailed =>
      cases hexit.symm.trans hfailed.ending
      exact .inr rfl
    | refused _ hrefused =>
      cases hexit.symm.trans hrefused.ending
      exact .inr rfl
  · rw [run_of_parse parser disk before hplain, run_of_parse parser disk before hchecked]
    exact dumpFile_checked hloads before

/-- One description that is dumped, and one that branches to a block that does not exist. -/
def twoFiles : Disk where
  read path :=
    if path = "whole.yaml" then
      .ok "blocks:\n- id: 0\n  instructions:\n  - \x7bid: 0, kind: unreachable\x7d\n"
    else if path = "loose.yaml" then
      .ok "blocks:\n- id: 0\n  instructions:\n  - \x7bid: 0, kind: br, dest: 7\x7d\n"
    else .error "no such file"
  write _ _ := .ok ()

theorem run_twoFiles :
    (∃ e margin text, Loads Yaml.parse twoFiles "whole.yaml" e ∧ e.format margin = .ok text ∧
      (run Yaml.parse twoFiles ["whole.yaml", "-o", "whole.ir"] BufferSink.empty).written =
        [("whole.ir", text)]) ∧
      (∃ e margin p, Loads Yaml.parse twoFiles "loose.yaml" e ∧
        e.CutShort margin (.problem p) BufferSink.empty
          (run Yaml.parse twoFiles ["loose.yaml"] BufferSink.empty).stdout) ∧
      Refused BufferSink.empty
        (run Yaml.parse twoFiles ["loose.yaml", "--validate"] BufferSink.empty) := by
  obtain ⟨hzero, hone, -, -, hcheck⟩ := run_delivers Yaml.parse twoFiles BufferSink.empty
  have hwhole : parse ["whole.yaml", "-o", "whole.ir"] =
      .ok (.dump ⟨"whole.yaml", .zero, false, some "whole.ir"⟩) :=
    toOption_eq_some.mp (by decide +kernel)
  have hplain : parse ["loose.yaml"] = .ok (.dump ⟨"loose.yaml", .zero, false, none⟩) :=
    toOption_eq_some.mp (by decide +kernel)
  have hchecked : parse ["loose.yaml", "--validate"] =
      .ok (.dump ⟨"loose.yaml", .zero, true, none⟩) :=
    toOption_eq_some.mp (by decide +kernel)
  have hloose : ∃ e, Loads Yaml.parse twoFiles "loose.yaml" e ∧ e.validate.errors ≠ [] := by
    have hfound : (executable? Yaml.parse twoFiles "loose.yaml").map (fun e =>
        e.validate.errors.isEmpty) = some false := by
      decide +kernel
    obtain ⟨e, he, hsome⟩ := Option.map_eq_some_iff.mp hfound
    exact ⟨e, loads_of_executable? he, List.isEmpty_eq_false_iff.mp hsome⟩
  refine ⟨?_, ?_, ?_⟩
  · obtain ⟨options, e, margin, text, hr, hformat, hdelivered, -⟩ :=
      hzero ["whole.yaml", "-o", "whole.ir"] (by decide +kernel) (by rw [hwhole]; nofun)
    cases hwhole.symm.trans hr.parsed
    exact ⟨e, margin, text, hr.loads, hformat, hdelivered.2.2⟩
  · obtain ⟨-, -, ⟨options, e, margin, p, hr, -, hcut⟩ | ⟨-, hkept⟩⟩ :=
      hone ["loose.yaml"] (by decide +kernel)
    · cases hplain.symm.trans hr.parsed
      exact ⟨e, margin, p, hr.loads, hcut⟩
    · exact absurd hkept (by decide +kernel)
  · obtain ⟨e, hloads, herrors⟩ := hloose
    exact (hcheck _ _ ⟨"loose.yaml", .zero, true, none⟩ e hplain hchecked hloads).2 herrors

end Command

end BlockIr
