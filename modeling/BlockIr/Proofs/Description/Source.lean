import BlockIr.Description.Load
import BlockIr.Yaml.Source

/-!
# Sources and their problems

Whatever parser there is, the syntax errors that it collects are reported one by one, and so is
whatever is wrong with the description in a source without any. But what the parser throws in
place of the contents is not reported: the load ends in it. Parsers are known to throw where a
source refers to an anchor that was never set, and where it expands references too often, so there
are sources that are neither loaded nor reported.

* `loadSource_eq_error_iff`: a load ends in what the parser throws and in nothing else.
* `report_of_loadSource`: what a load that returns reports.
* `loadSource_reports`: which sources are loaded with a report, and what is in it.
* `Yaml.parse_refusesReferences`: the parser of the program throws where parsers are known to.
-/

namespace BlockIr

/-- The codes of problems of a description. -/
def LoadError.codes : List String :=
  ["IRL001", "IRL002", "IRL003", "IRL004", "IRL005", "IRL006", "IRL007", "IRL008", "IRL009",
    "IRL010"]

/-- Every problem of a load is shown as an error of the description, by one of its codes. -/
theorem LoadError.message_spec (problem : LoadError) :
    (message problem).origin = .description ∧ (message problem).severity = .error ∧
      (message problem).code ∈ LoadError.codes := by
  refine ⟨rfl, rfl, ?_⟩
  cases problem with
  | syntaxError => exact List.mem_cons_self
  | fault _ cause => cases cause <;> simp [message, code, Cause.code, codes]

namespace Description

variable {θ : Type} {parser : Parser θ} {source : String} {loaded : Outcome LoadError Executable}

/-! ## Loads with any parser -/

theorem loadSource_of_syntaxErrors (h : (parser source).syntaxErrors ≠ []) :
    loadSource parser source = .ok (.err ((parser source).syntaxErrors.map .syntaxError)) := by
  rw [loadSource, if_neg (mt List.isEmpty_iff.mp h)]

theorem loadSource_of_noSyntaxErrors (h : (parser source).syntaxErrors = []) :
    loadSource parser source =
      (parser source).contents.map fun doc => load (doc.unfold (linkDepth doc)) := by
  rw [loadSource, if_pos (List.isEmpty_iff.mpr h)]

theorem loadSource_eq_error_iff {e : θ} :
    loadSource parser source = .error e ↔
      (parser source).syntaxErrors = [] ∧ (parser source).contents = .error e := by
  by_cases hclean : (parser source).syntaxErrors = []
  · rw [loadSource_of_noSyntaxErrors hclean]
    cases hcontents : (parser source).contents <;> simp [hclean, Except.map]
  · simp [loadSource_of_syntaxErrors hclean, hclean]

theorem isSome_value_outcome (p : Progress) :
    p.outcome.value.isSome = true ↔ p.outcome.messages = [] := by
  unfold Progress.outcome
  split
  · exact ⟨fun _ => rfl, fun _ => rfl⟩
  · rename_i hproblems
    refine ⟨nofun, fun hnone => absurd ?_ hproblems⟩
    exact List.isEmpty_iff.mpr hnone

/-- A description is loaded if and only if there is nothing to report. -/
theorem isSome_value_load (doc : Doc) :
    (load doc).value.isSome = true ↔ (load doc).messages = [] := by
  cases hentries : (Node.root doc).entries with
  | error e =>
    simp only [load, hentries]
    exact ⟨nofun, nofun⟩
  | ok _ =>
    simp only [load, hentries]
    exact isSome_value_outcome _

/-- A load that returns gives a result or reports a problem, and all it reports are problems. -/
theorem report_of_loadSource (h : loadSource parser source = .ok loaded) :
    loaded.errors = loaded.messages ∧ (loaded.success = true ↔ loaded.errors = []) := by
  have herrors : loaded.errors = loaded.messages := List.filter_eq_self.mpr fun _ _ => rfl
  refine ⟨herrors, ?_⟩
  rw [herrors, Outcome.success]
  by_cases hclean : (parser source).syntaxErrors = []
  · rw [loadSource_of_noSyntaxErrors hclean] at h
    cases hcontents : (parser source).contents with
    | error e =>
      rw [hcontents] at h
      cases h
    | ok doc =>
      rw [hcontents] at h
      cases h
      exact isSome_value_load _
  · rw [loadSource_of_syntaxErrors hclean] at h
    cases h
    simpa [Outcome.err] using hclean

/-! ## What parsers throw -/

/-- What is documented of a parser: it throws an error of some kind where a source without syntax
errors refers to an anchor that was never set, or expands references too often. -/
structure Parser.RefusesReferences (parser : Parser θ) (Unresolved Excessive : String → Prop)
    (IsReferenceError : θ → Prop) : Prop where
  unresolved : ∀ source, Unresolved source → (parser source).syntaxErrors = [] →
    ∃ e, IsReferenceError e ∧ (parser source).contents = .error e
  excessive : ∀ source, Excessive source → (parser source).syntaxErrors = [] →
    ∃ e, IsReferenceError e ∧ (parser source).contents = .error e

/-- A source with syntax errors is reported, one problem for each of them. One without ends the
load in whatever the parser throws in place of its contents, and only in that; so it does if it
refers to an anchor that was never set, or expands references too often. In all other cases there
is a result or a report, and what is reported are errors of the description. -/
theorem loadSource_reports (parser : Parser θ) {Unresolved Excessive : String → Prop}
    {IsReferenceError : θ → Prop}
    (hparser : parser.RefusesReferences Unresolved Excessive IsReferenceError) (source : String) :
    ((parser source).syntaxErrors ≠ [] → ∃ loaded, loadSource parser source = .ok loaded ∧
        loaded.success = false ∧
        loaded.errors.map message = (parser source).syntaxErrors.map fun text =>
          ⟨.description, "IRL001", .error, none, "Invalid YAML: " ++ text⟩) ∧
      (∀ e, loadSource parser source = .error e ↔
        (parser source).syntaxErrors = [] ∧ (parser source).contents = .error e) ∧
      (Unresolved source ∨ Excessive source → (parser source).syntaxErrors = [] →
        ∃ e, IsReferenceError e ∧ loadSource parser source = .error e) ∧
      ∀ loaded, loadSource parser source = .ok loaded →
        loaded.errors = loaded.messages ∧ (loaded.success = true ↔ loaded.errors = []) ∧
        ∀ problem ∈ loaded.errors, (message problem).origin = .description ∧
          (message problem).severity = .error ∧ (message problem).code ∈ LoadError.codes := by
  refine ⟨fun hne => ?_, fun _ => loadSource_eq_error_iff, fun hsource hclean => ?_,
    fun loaded hload => ?_⟩
  · have hload := loadSource_of_syntaxErrors hne
    obtain ⟨herrors, -⟩ := report_of_loadSource hload
    refine ⟨_, hload, rfl, ?_⟩
    rw [herrors]
    exact List.map_map
  · have hthrown : ∃ e, IsReferenceError e ∧ (parser source).contents = .error e :=
      hsource.elim (fun h => hparser.unresolved source h hclean)
        fun h => hparser.excessive source h hclean
    obtain ⟨e, he, hcontents⟩ := hthrown
    exact ⟨e, he, loadSource_eq_error_iff.mpr ⟨hclean, hcontents⟩⟩
  · obtain ⟨herrors, hsuccess⟩ := report_of_loadSource hload
    exact ⟨herrors, hsuccess, fun problem _ => problem.message_spec⟩

end Description

/-! ## One parser -/

namespace Yaml

/-- Whether a tree is a reference and nothing else, so that no anchor stands before it. -/
def Tree.isReference : Tree → Bool
  | reference .. => true
  | _ => false

/-- All there is in the source is a reference. -/
def IsLoneReference (source : String) : Prop :=
  (tree? source.toList).any (fun read => read.1.isReference) = true

/-- A node of the source would be copied too often. -/
def IsExcessive (source : String) : Prop :=
  ∃ tree directives, tree? source.toList = some (tree, directives) ∧
    tree.document directives = .error .excessive

/-- Problems of references. -/
def DocumentError.OfReference : DocumentError → Prop
  | unresolved _ | excessive => True
  | _ => False

theorem parse_of_tree {source : String} {tree : Tree} {directives : Directives}
    (h : tree? source.toList = some (tree, directives)) :
    parse source = ⟨[], tree.document directives⟩ := by
  rw [parse, h]

theorem parse_refusesReferences :
    Description.Parser.RefusesReferences parse IsLoneReference IsExcessive
      DocumentError.OfReference where
  unresolved source := by
    intro hlone _
    obtain ⟨⟨tree, directives⟩, htree, hreference⟩ := (Option.any_eq_true _ _).mp hlone
    rw [parse_of_tree htree]
    cases tree with
    | reference d name => exact ⟨.unresolved name, trivial, rfl⟩
    | leaf | list | map | pairs => cases hreference
  excessive source := by
    rintro ⟨tree, directives, htree, hdocument⟩ -
    exact ⟨.excessive, trivial, by rw [parse_of_tree htree, hdocument]⟩

end Yaml

namespace Description

/-- There is nothing that a reference alone could stand for. In a list that has no end it is not
even looked at. -/
theorem loadSource_strayReference :
    (∃ e, Yaml.DocumentError.OfReference e ∧ loadSource Yaml.parse "*x" = .error e) ∧
      ∃ loaded, loadSource Yaml.parse "[*x" = .ok loaded ∧ loaded.success = false ∧
        loaded.errors.map message =
          [⟨.description, "IRL001", .error, none, "Invalid YAML: the source is no document"⟩] := by
  obtain ⟨-, -, hreference, -⟩ :=
    loadSource_reports Yaml.parse Yaml.parse_refusesReferences "*x"
  obtain ⟨hreported, -⟩ := loadSource_reports Yaml.parse Yaml.parse_refusesReferences "[*x"
  have hlone : Yaml.IsLoneReference "*x" := by
    unfold Yaml.IsLoneReference
    decide +kernel
  have hclean : (Yaml.parse "*x").syntaxErrors = [] := by decide +kernel
  have hbroken : (Yaml.parse "[*x").syntaxErrors = ["the source is no document"] := by
    decide +kernel
  refine ⟨hreference (.inl hlone) hclean, ?_⟩
  rw [hbroken] at hreported
  exact hreported (List.cons_ne_nil _ _)

theorem loadSource_not_total :
    ¬ ∀ source, ∃ loaded, loadSource Yaml.parse source = .ok loaded := by
  intro h
  obtain ⟨loaded, hload⟩ := h "*x"
  have hnone : (loadSource Yaml.parse "*x").toOption.isNone = true := by decide +kernel
  rw [hload] at hnone
  cases hnone

end Description

end BlockIr
