import BlockIr.Proofs.Delivery
import BlockIr.Proofs.IntegerRounding
import BlockIr.Proofs.IntegerText

/-!
# Margins that are asked for

The last option for blanks in the arguments gives their number by its digits, and the margin is
that number, rounded to 53 bits. The digits may be as many as one likes, but a number that is
rounded to an infinity is no margin. Such arguments are accepted all the same, so the command
breaks off without an exit code when it comes to the dump.

* `margin?_ofInt`: which numbers are margins.
* `indent_of_parse`: the number that the arguments ask for.
* `run_margin_iff`: when a command breaks off because of its margin.
* `margin_accepted_iff`: the margins of the arguments that are accepted.
-/

namespace BlockIr

open Binary64 in
/-- A natural number is rounded to a margin, unless it is beyond the finite range. -/
theorem margin?_ofInt (n : Nat) :
    margin? (.ofInt n) =
      if n < finiteBound then .ok (rounded n) else .error ⟨.ofInt n⟩ := by
  have hwhole : (ofInt n).toInt? =
      if n < finiteBound then some ((rounded n : Nat) : Int) else none := by
    rw [toInt?_ofInt_eq, Int.natAbs_natCast]
    cases n with
    | zero => rfl
    | succ n => rw [Int.sign_eq_one_of_pos (Int.natCast_succ_pos n), Int.one_mul]
  unfold margin?
  by_cases hn : n < finiteBound
  · rw [hwhole, if_pos hn, if_pos hn]
  · rw [hwhole, if_neg hn, if_neg hn]

theorem margin?_ofInt_error_iff {n : Nat} :
    (∃ bad, margin? (.ofInt n) = .error bad) ↔ Binary64.finiteBound ≤ n := by
  rw [margin?_ofInt, ← Nat.not_lt]
  split
  · rename_i hlt
    exact ⟨fun ⟨_, hbad⟩ => (nomatch hbad), fun hge => absurd hlt hge⟩
  · rename_i hge
    exact ⟨fun _ => hge, fun _ => ⟨_, rfl⟩⟩

namespace Command

/-! ## The number that is asked for -/

/-- The number of blanks an argument gives. -/
def ArgumentUse.indent? : ArgumentUse → Option String
  | .option ⟨some .indent, _, value, _⟩ => value
  | _ => none

/-- The number of blanks an indent text asks for, by its digits. -/
def IndentGives : Option String → Nat → Prop
  | none, n => n = 0
  | some s, n =>
    s.toList ≠ [] ∧ (∀ c ∈ s.toList, c.isDigit = true) ∧ Text.placeValue s.toList = n

/-- The arguments ask for `n` blanks, the last option for blanks being the one that counts. -/
def AsksForBlanks (arguments : List String) (n : Nat) : Prop :=
  IndentGives ((uses arguments).filterMap ArgumentUse.indent?).getLast? n

theorem IndentGives.unique {given : Option String} {m n : Nat} (hm : IndentGives given m)
    (hn : IndentGives given n) : m = n := by
  cases given with
  | none => exact hm.trans hn.symm
  | some s => exact hm.2.2.symm.trans hn.2.2

theorem parseIndent_eq_ok {given : Option String} {x : Binary64} (h : parseIndent given = .ok x) :
    ∃ n : Nat, IndentGives given n ∧ x = .ofInt n := by
  have hzero : Binary64.zero = .ofInt ((0 : Nat) : Int) := by decide
  cases given with
  | none =>
    cases h
    exact ⟨0, rfl, hzero⟩
  | some s =>
    unfold parseIndent at h
    cases hs : Text.natural? s.toList with
    | none => simp only [hs, reduceCtorEq] at h
    | some n =>
      simp only [hs, Except.ok.injEq] at h
      exact ⟨n, Text.natural?_eq_some_iff.mp hs, h.symm⟩

variable {given given' : Given}

/-- An option that is used rightly has a value just if it takes one. -/
theorem OptionUse.check_eq_ok {use : OptionUse} {flag : Flag} (h : use.check = .ok flag) :
    use.flag = some flag ∧ use.value.isSome = flag.takesValue := by
  unfold check at h
  split at h
  · cases h
  · rename_i known hknown
    split at h
    · cases h
    · cases h
    · rename_i htakes hvalue
      cases h
      exact ⟨hknown, by rw [hvalue, htakes]; rfl⟩
    · rename_i htakes hvalue
      split at h
      · cases h
      · cases h
        exact ⟨hknown, by rw [hvalue, htakes]; rfl⟩

theorem Given.indent_add {use : ArgumentUse} (h : given.add use = .ok given') :
    given'.indent = use.indent?.or given.indent := by
  cases use with
  | file path =>
    cases h
    rfl
  | option use =>
    obtain ⟨flag, hcheck, h⟩ := bind_eq_ok.mp h
    obtain ⟨hflag, hvalue⟩ := OptionUse.check_eq_ok hcheck
    obtain ⟨_, typed, value, attached⟩ := use
    cases hflag
    cases flag with
    | indent =>
      obtain ⟨s, rfl⟩ := Option.isSome_iff_exists.mp hvalue
      cases h
      rfl
    | _ =>
      cases h
      rfl

/-- Of an option that is repeated the last value counts. -/
theorem indent_of_foldlM {us : List ArgumentUse} (h : us.foldlM Given.add given = .ok given') :
    given'.indent = (us.filterMap ArgumentUse.indent?).getLast?.or given.indent := by
  induction us generalizing given with
  | nil =>
    cases h
    rfl
  | cons use us ih =>
    rw [List.foldlM_cons] at h
    obtain ⟨next, hnext, h⟩ := bind_eq_ok.mp h
    rw [ih h, Given.indent_add hnext]
    cases huse : use.indent? with
    | none => simp [huse]
    | some s =>
      cases hlast : (us.filterMap ArgumentUse.indent?).getLast? <;>
        simp [huse, List.getLast?_cons, hlast]

/-- Arguments that are accepted ask for a number of blanks, which is rounded. -/
theorem indent_of_parse {arguments : List String} {options : DumpOptions}
    (h : parse arguments = .ok (.dump options)) :
    ∃ n : Nat, AsksForBlanks arguments n ∧ options.indent = .ofInt n := by
  obtain ⟨given, hgiven, h⟩ := bind_eq_ok.mp h
  have hindent := indent_of_foldlM hgiven
  have hnone : Given.none.indent = none := rfl
  rw [hnone, Option.or_none] at hindent
  unfold Given.request at h
  split at h
  · cases h
  · split at h
    · cases h
    · obtain ⟨indent, hparse, h⟩ := bind_eq_ok.mp h
      cases h
      obtain ⟨n, hn, hrounded⟩ := parseIndent_eq_ok hparse
      refine ⟨n, ?_, hrounded⟩
      rw [AsksForBlanks, ← hindent]
      exact hn
    · cases h

/-- Any row of digits is accepted. -/
theorem parse_digits {path : String} {cs : List Char} (hpath : formOf path = .file)
    (hne : cs ≠ []) (hdigit : ∀ c ∈ cs, c.isDigit = true) :
    parse [path, "--indent", String.ofList cs] =
      .ok (.dump ⟨path, .ofInt (Text.placeValue cs), false, none⟩) := by
  have huses : uses [path, "--indent", String.ofList cs] =
      [.file path, useWith (some .indent) "--indent" (some (String.ofList cs))] := by
    have hword : formOf "--indent" = .word (some .indent) "--indent" := rfl
    simp only [uses, hpath, hword]
    rfl
  have hlooks : looksLikeOption (String.ofList cs) = false := by
    unfold looksLikeOption
    rw [String.toList_ofList]
    split
    · -- A minus sign is no digit.
      exact absurd (hdigit '-' (by simp)) (by decide)
    · rfl
  have hcheck : (⟨some .indent, "--indent", some (String.ofList cs), false⟩ : OptionUse).check =
      .ok .indent := by
    simp only [OptionUse.check, Flag.takesValue, hlooks]
    rfl
  have hgiven : (uses [path, "--indent", String.ofList cs]).foldlM Given.add Given.none =
      .ok ⟨some (String.ofList cs), false, none, false, [path]⟩ := by
    rw [huses]
    simp only [List.foldlM_cons, List.foldlM_nil, Given.add, useWith, hcheck, ok_bind, pure_eq_ok]
    rfl
  have hnatural : Text.natural? cs = some (Text.placeValue cs) :=
    Text.natural?_eq_some_iff.mpr ⟨hne, hdigit, rfl⟩
  rw [parse, hgiven, ok_bind, Given.request]
  simp only [parseIndent, String.toList_ofList, hnatural]
  rfl

/-! ## Commands without a margin -/

variable {θ : Type}

/-- A command breaks off because of its margin just if it comes to the dump and its arguments ask
for a number beyond the finite range. -/
theorem run_margin_iff (parser : Description.Parser θ) (disk : Disk) (arguments : List String)
    (before : BufferSink) :
    (∃ bad, (run parser disk arguments before).ending = .breakdown (.margin bad)) ↔
      ∃ options e n, parse arguments = .ok (.dump options) ∧ AsksForBlanks arguments n ∧
        Binary64.finiteBound ≤ n ∧ Loads parser disk options.file e ∧ options.Admits e := by
  constructor
  · rintro ⟨bad, hbad⟩
    obtain ⟨options, e, hparse, hloads, hadmits, hmargin⟩ :=
      (run_noMargin_iff parser disk arguments before bad).mp hbad
    obtain ⟨n, hn, hindent⟩ := indent_of_parse hparse
    rw [hindent] at hmargin
    exact ⟨options, e, n, hparse, hn, margin?_ofInt_error_iff.mp ⟨bad, hmargin⟩, hloads, hadmits⟩
  · rintro ⟨options, e, n, hparse, hn, hge, hloads, hadmits⟩
    obtain ⟨n', hn', hindent⟩ := indent_of_parse hparse
    obtain rfl : n' = n := hn'.unique hn
    obtain ⟨bad, hmargin⟩ := margin?_ofInt_error_iff.mpr hge
    rw [← hindent] at hmargin
    refine ⟨bad, (run_noMargin_iff parser disk arguments before bad).mpr ?_⟩
    exact ⟨options, e, hparse, hloads, hadmits, hmargin⟩

open Binary64 in
/-- Arguments that are accepted ask for one number of blanks. It is rounded to 53 bits, and that is
the margin unless the number is beyond the finite range; a number of at most 53 bits is kept. A
command breaks off because of its margin just if its arguments are accepted, ask for a number
beyond that range, and it comes to the dump. -/
theorem margin_accepted_iff (parser : Description.Parser θ) (disk : Disk)
    (arguments : List String) (before : BufferSink) :
    (∀ options, parse arguments = .ok (.dump options) →
      ∃ n : Nat, (∀ m, AsksForBlanks arguments m ↔ m = n) ∧
        margin? options.indent =
          (if n < finiteBound then .ok (rounded n) else .error ⟨options.indent⟩) ∧
        (n ≤ maxSafe → margin? options.indent = .ok n)) ∧
      ((∃ bad, (run parser disk arguments before).ending = .breakdown (.margin bad)) ↔
        ∃ options e n, parse arguments = .ok (.dump options) ∧ AsksForBlanks arguments n ∧
          finiteBound ≤ n ∧ Loads parser disk options.file e ∧ options.Admits e) := by
  refine ⟨fun options hparse => ?_, run_margin_iff parser disk arguments before⟩
  obtain ⟨n, hn, hindent⟩ := indent_of_parse hparse
  refine ⟨n, fun m => ⟨fun hm => hm.unique hn, fun hm => hm ▸ hn⟩, ?_, fun hsafe => ?_⟩
  · rw [hindent, margin?_ofInt]
  · rw [hindent, margin?_ofInt, if_pos (Nat.lt_of_le_of_lt hsafe maxSafe_lt_finiteBound),
      rounded_eq_self hsafe]

/-- A disk with a description of an empty program. -/
def emptyProgram : Disk where
  read path := if path = "prog.yaml" then .ok "blocks: []\n" else .error "no such file"
  write _ _ := .ok ()

theorem margin_accepted_lastOption :
    parse ["prog.yaml", "-i", "1", "--indent=007"] =
        .ok (.dump ⟨"prog.yaml", .ofInt 7, false, none⟩) ∧
      margin? (.ofInt 7) = .ok 7 ∧
      ¬ ∃ bad, (run Yaml.parse emptyProgram ["prog.yaml", "-i", "1", "--indent=007"]
        BufferSink.empty).ending = .breakdown (.margin bad) := by
  have hparse : parse ["prog.yaml", "-i", "1", "--indent=007"] =
      .ok (.dump ⟨"prog.yaml", .ofInt 7, false, none⟩) :=
    toOption_eq_some.mp (by decide +kernel)
  have hasks : AsksForBlanks ["prog.yaml", "-i", "1", "--indent=007"] 7 := by
    have hlast : ((uses ["prog.yaml", "-i", "1", "--indent=007"]).filterMap
        ArgumentUse.indent?).getLast? = some "007" := by
      decide +kernel
    rw [AsksForBlanks, hlast]
    exact ⟨by decide, List.all_eq_true.mp (by decide), by decide⟩
  obtain ⟨hmargin, hbreaks⟩ := margin_accepted_iff Yaml.parse emptyProgram
    ["prog.yaml", "-i", "1", "--indent=007"] BufferSink.empty
  obtain ⟨n, hn, -, hsafe⟩ := hmargin _ hparse
  obtain rfl : 7 = n := (hn 7).mp hasks
  -- Comparing the terms as they stand would evaluate the rounding.
  dsimp only at hsafe
  refine ⟨hparse, hsafe (by decide +kernel), fun hbroken => ?_⟩
  obtain ⟨_, _, n, -, hn', hge, -⟩ := hbreaks.mp hbroken
  obtain rfl : n = 7 := (hn n).mp hn'
  exact absurd hge (by decide +kernel)

/-- The digits of `10 ^ 309`. -/
def hugeDigits : List Char := '1' :: List.replicate 309 '0'

/-- The digits are accepted, but there is no margin for them, whatever parser reads the file. -/
theorem margin_hugeDigits :
    parse ["prog.yaml", "--indent", String.ofList hugeDigits] =
        .ok (.dump ⟨"prog.yaml", .infinity false, false, none⟩) ∧
      (∀ (θ : Type) (parser : Description.Parser θ) (e : Executable),
        Loads parser emptyProgram "prog.yaml" e →
        (run parser emptyProgram ["prog.yaml", "--indent", String.ofList hugeDigits]
            BufferSink.empty).ending = .breakdown (.margin ⟨.infinity false⟩)) ∧
      (∃ e, Loads Yaml.parse emptyProgram "prog.yaml" e) ∧
      ¬ ∀ arguments options, parse arguments = .ok (.dump options) →
        ∃ margin, margin? options.indent = .ok margin := by
  have hparse : parse ["prog.yaml", "--indent", String.ofList hugeDigits] =
      .ok (.dump ⟨"prog.yaml", .infinity false, false, none⟩) := by
    have hinfinity : Binary64.ofInt (Text.placeValue hugeDigits) = .infinity false := by
      decide +kernel
    rw [← hinfinity]
    exact parse_digits rfl (List.cons_ne_nil _ _) (List.all_eq_true.mp (by decide +kernel))
  have hloads : ∃ e, Loads Yaml.parse emptyProgram "prog.yaml" e := by
    have hsome : (executable? Yaml.parse emptyProgram "prog.yaml").isSome = true := by
      decide +kernel
    obtain ⟨e, he⟩ := Option.isSome_iff_exists.mp hsome
    exact ⟨e, loads_of_executable? he⟩
  refine ⟨hparse, fun θ parser e hloads => ?_, hloads, fun haccepted => ?_⟩
  · rw [run_noMargin_iff]
    exact ⟨_, e, hparse, hloads, nofun, rfl⟩
  · obtain ⟨margin, hmargin⟩ := haccepted _ _ hparse
    cases hmargin

end Command

end BlockIr
