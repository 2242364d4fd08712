import Mathlib.Data.List.Induction
import BlockIr.Description.Constant
import BlockIr.Dump.Constant
import BlockIr.Proofs.PlaceNotation

/-!
# Texts of integers

A numeral is an optional minus sign and one or more decimal digits, which denote a number by their
places. Every numeral is read as the number it denotes, and no other text is read as an integer.
Of the numerals of one number a single one is canonical: it has no zero in front that could be left
out and no minus sign on zero. That one is written.

* `natural?_eq_some_iff`, `integer?_eq_some_iff`: what is read.
* `Numeral.text_eq_integer_iff`: what is written.
* `integer_text_exact`: texts of integer constants are read and written without any loss.
-/

namespace BlockIr

namespace Text

/-! ## Digits -/

/-- The number that digits denote: each of them counts powers of ten by its place. -/
def placeValue : List Char → Nat
  | [] => 0
  | c :: cs => (c.toNat - '0'.toNat) * 10 ^ cs.length + placeValue cs

theorem ofDigitChars_eq (cs : List Char) (init : Nat) :
    Nat.ofDigitChars 10 cs init = init * 10 ^ cs.length + placeValue cs := by
  induction cs generalizing init with
  | nil => simp [placeValue]
  | cons c cs ih =>
    rw [Nat.ofDigitChars_cons, ih, placeValue, List.length_cons, Nat.add_mul, Nat.pow_succ',
      Nat.mul_assoc, Nat.mul_left_comm, Nat.add_assoc]

theorem placeValue_eq (cs : List Char) : placeValue cs = Nat.ofDigitChars 10 cs 0 := by
  rw [ofDigitChars_eq, Nat.zero_mul, Nat.zero_add]

theorem placeValue_toDigits (n : Nat) : placeValue (Nat.toDigits 10 n) = n := by
  rw [placeValue_eq, Nat.ofDigitChars_toDigits (by decide) (by decide)]

theorem placeValue_concat (cs : List Char) (c : Char) :
    placeValue (cs ++ [c]) = 10 * placeValue cs + (c.toNat - '0'.toNat) := by
  rw [placeValue_eq, Nat.ofDigitChars_append, ← placeValue_eq, Nat.ofDigitChars_cons,
    Nat.ofDigitChars_nil]

/-- One or more digits are read as the number that they denote, and nothing else is. -/
theorem natural?_eq_some_iff {cs : List Char} {n : Nat} :
    natural? cs = some n ↔
      cs ≠ [] ∧ (∀ c ∈ cs, c.isDigit = true) ∧ placeValue cs = n := by
  simp [natural?, placeValue_eq, and_assoc]

theorem digitChar_of_isDigit {c : Char} (h : c.isDigit = true) :
    c.toNat - '0'.toNat < 10 ∧ Nat.digitChar (c.toNat - '0'.toNat) = c := by
  obtain ⟨hlow, hhigh⟩ := Char.isDigit_iff_toNat.mp h
  have hzero : '0'.toNat = 48 := rfl
  have hnine : '9'.toNat = 57 := rfl
  have hlt : c.toNat - '0'.toNat < 10 := by omega
  refine ⟨hlt, ?_⟩
  rw [← Char.toNat_inj, Nat.toNat_digitChar_of_lt_ten hlt]
  omega

/-- Digits without a zero in front are those of the number that they denote. -/
theorem toDigits_placeValue {cs : List Char} (hne : cs ≠ [])
    (hdigit : ∀ c ∈ cs, c.isDigit = true) (hlead : cs.head? = some '0' → cs = ['0']) :
    Nat.toDigits 10 (placeValue cs) = cs := by
  induction cs using List.reverseRecOn with
  | nil => exact absurd rfl hne
  | append_singleton cs c ih =>
    obtain ⟨hc, hchar⟩ := digitChar_of_isDigit (hdigit c (by simp))
    rw [placeValue_concat]
    by_cases hnil : cs = []
    · subst hnil
      rw [placeValue, Nat.mul_zero, Nat.zero_add, Nat.toDigits_of_lt_base hc, hchar]
      rfl
    · have hhead : cs.head? ≠ some '0' := by
        intro hhead
        have hone := hlead (by rw [List.head?_append_of_ne_nil _ hnil, hhead])
        cases cs with
        | nil => exact hnil rfl
        | cons d ds => simp at hone
      have hrest : Nat.toDigits 10 (placeValue cs) = cs :=
        ih hnil (fun d hd => hdigit d (List.mem_append_left _ hd)) fun h => absurd h hhead
      -- The number that the digits in front denote is not zero.
      have hpos : 0 < placeValue cs := by
        refine Nat.pos_of_ne_zero fun hzero => hhead ?_
        rw [← hrest, hzero]
        rfl
      rw [Nat.toDigits_of_base_le (by decide) (by omega)]
      have hdiv : (10 * placeValue cs + (c.toNat - '0'.toNat)) / 10 = placeValue cs := by omega
      have hmod : (10 * placeValue cs + (c.toNat - '0'.toNat)) % 10 = c.toNat - '0'.toNat := by
        omega
      rw [hdiv, hmod, hrest, hchar]

/-! ## Numerals -/

/-- An optional minus sign and one or more decimal digits. -/
structure Numeral where
  negative : Bool
  digits : List Char
  digits_ne_nil : digits ≠ []
  isDigit : ∀ c ∈ digits, c.isDigit = true

namespace Numeral

def text (d : Numeral) : String :=
  String.ofList (if d.negative then '-' :: d.digits else d.digits)

/-- The number that is denoted. -/
def value (d : Numeral) : Int :=
  if d.negative then -(placeValue d.digits : Int) else placeValue d.digits

/-- No zero in front that could be left out, and no minus sign on zero. -/
structure Canonical (d : Numeral) : Prop where
  leading : d.digits.head? = some '0' → d.digits = ['0']
  sign : d.value = 0 → d.negative = false

/-- A numeral of a number. -/
def ofInt (n : Int) : Numeral where
  negative := n < 0
  digits := Nat.toDigits 10 n.natAbs
  digits_ne_nil := Nat.toDigits_ne_nil
  isDigit := fun _ hc => Nat.isDigit_of_mem_toDigits (by decide) (by decide) hc

theorem value_ofInt (n : Int) : (ofInt n).value = n := by
  simp only [value, ofInt, placeValue_toDigits, decide_eq_true_eq]
  split <;> omega

theorem canonical_ofInt (n : Int) : (ofInt n).Canonical where
  leading := Binary64.leading_toDigits
  sign := by
    rw [value_ofInt]
    rintro rfl
    rfl

theorem text_ofInt (n : Int) : (ofInt n).text = integer n := by
  unfold text integer
  rw [Nat.repr_eq_ofList_toDigits]
  by_cases hn : n < 0
  · rw [if_pos hn]
    simp only [ofInt, decide_eq_true hn, if_true]
    rw [← List.singleton_append, String.ofList_append]
  · rw [if_neg hn]
    simp only [ofInt, decide_eq_false hn]
    rfl

/-- The numeral of a number that has no zero in front and no minus sign on zero. -/
theorem text_of_canonical {d : Numeral} (h : d.Canonical) : d.text = integer d.value := by
  have hdigits : Nat.toDigits 10 (placeValue d.digits) = d.digits :=
    toDigits_placeValue d.digits_ne_nil d.isDigit h.leading
  have habs : d.value.natAbs = placeValue d.digits := by
    unfold value
    split <;> omega
  have hsign : decide (d.value < 0) = d.negative := by
    cases hneg : d.negative with
    | true =>
      have hne : d.value ≠ 0 := fun hzero => by simp [h.sign hzero] at hneg
      simp only [value, hneg, if_true] at hne ⊢
      exact decide_eq_true (by omega)
    | false =>
      simp only [value, hneg]
      exact decide_eq_false (by simp)
  rw [← text_ofInt]
  simp only [text, ofInt, habs, hsign, hdigits]

/-- What is written for a number is its one canonical numeral. -/
theorem text_eq_integer_iff {n : Int} {s : String} :
    s = integer n ↔ ∃ d : Numeral, d.Canonical ∧ d.value = n ∧ d.text = s := by
  constructor
  · rintro rfl
    exact ⟨ofInt n, canonical_ofInt n, value_ofInt n, text_ofInt n⟩
  · rintro ⟨d, hd, rfl, rfl⟩
    exact text_of_canonical hd

theorem integer?_text (d : Numeral) : integer? d.text = some d.value := by
  have hnatural : natural? d.digits = some (placeValue d.digits) :=
    natural?_eq_some_iff.mpr ⟨d.digits_ne_nil, d.isDigit, rfl⟩
  unfold integer? text value
  rw [String.toList_ofList]
  cases d.negative with
  | true => simp [hnatural]
  | false =>
    simp only [Bool.false_eq_true, if_false]
    split
    · -- A minus sign is no digit.
      rename_i cs hcs
      exact absurd (d.isDigit '-' (by simp [hcs])) (by decide)
    · rw [hnatural]
      rfl

end Numeral

/-- Numerals are read as the numbers they denote, and nothing else is read. -/
theorem integer?_eq_some_iff {s : String} {n : Int} :
    integer? s = some n ↔ ∃ d : Numeral, d.text = s ∧ d.value = n := by
  constructor
  · intro h
    unfold integer? at h
    split at h
    · rename_i cs hcs
      obtain ⟨m, hm, rfl⟩ := Option.map_eq_some_iff.mp h
      obtain ⟨hne, hdigit, rfl⟩ := natural?_eq_some_iff.mp hm
      exact ⟨⟨true, cs, hne, hdigit⟩, String.toList_inj.mp (by simp [Numeral.text, hcs]), rfl⟩
    · obtain ⟨m, hm, rfl⟩ := Option.map_eq_some_iff.mp h
      obtain ⟨hne, hdigit, rfl⟩ := natural?_eq_some_iff.mp hm
      exact ⟨⟨false, s.toList, hne, hdigit⟩, String.ofList_toList, rfl⟩
  · rintro ⟨d, rfl, rfl⟩
    exact d.integer?_text

end Text

open Text

/-! ## Constants -/

namespace Node

variable {place : Place} {s : String}

theorem integer_text_eq_ok_iff {n : Int} :
    (⟨.text s, place⟩ : Node).integer = .ok n ↔ ∃ d : Numeral, d.text = s ∧ d.value = n := by
  rw [← integer?_eq_some_iff]
  simp only [integer, fail]
  cases integer? s <;> simp

theorem integer_text_eq_error_iff :
    (⟨.text s, place⟩ : Node).integer = .error (.fault place (.expected .integer)) ↔
      ¬ ∃ d : Numeral, d.text = s := by
  constructor
  · rintro h ⟨d, rfl⟩
    have hread : (⟨.text d.text, place⟩ : Node).integer = .ok d.value :=
      integer_text_eq_ok_iff.mpr ⟨d, rfl, rfl⟩
    rw [h] at hread
    cases hread
  · intro h
    cases hs : integer? s with
    | none => simp only [integer, hs, fail]
    | some n =>
      obtain ⟨d, hd, -⟩ := integer?_eq_some_iff.mp hs
      exact absurd ⟨d, hd⟩ h

end Node

namespace Ty

/-- Types of integers, which may have declared names. -/
def ReadsIntegers : Ty → Prop
  | declared _ canonical => canonical.ReadsIntegers
  | int .. | plain .intLiteral _ => True
  | _ => False

variable {t : Ty}

theorem ReadsIntegers.readData_eq (h : t.ReadsIntegers) (types : TypeTable) (node : Node) :
    readData types t node = .int <$> node.integer := by
  induction t with
  | declared _ canonical ih => exact ih h
  | int => rfl
  | plain kind _ =>
    cases kind with
    | intLiteral => rfl
    | _ => cases h
  | _ => cases h

theorem ReadsIntegers.dataText_int (h : t.ReadsIntegers)
    (receiver : InstrId → Except DumpStop String) (n : Int) :
    t.dataText receiver (.int n) = .ok (integer n) := by
  induction t with
  | declared _ canonical ih => exact ih h
  | int => rfl
  | plain kind _ =>
    cases kind with
    | intLiteral => rfl
    | _ => cases h
  | _ => cases h

/-- A numeral is a constant of every type of integers. -/
theorem ReadsIntegers.readValue_text (h : t.ReadsIntegers) (types : TypeTable) (d : Numeral)
    (place : Place) :
    readValue types (some t) (some ⟨.text d.text, place⟩) = .ok (.static (.int d.value)) := by
  have hread : (⟨.text d.text, place⟩ : Node).integer = .ok d.value :=
    Node.integer_text_eq_ok_iff.mpr ⟨d, rfl, rfl⟩
  have hdata : readData types t ⟨.text d.text, place⟩ = .ok (.int d.value) := by
    rw [h.readData_eq, hread]
    rfl
  have hspecial : (⟨.text d.text, place⟩ : Node).has "special" = false := rfl
  simp only [readValue, readState, hspecial, hdata]
  rfl

end Ty

/-- Texts of integers are exact, whatever their size. What is written for an integer is read back
as that integer. The texts that are read are the numerals, each as the number that it denotes; any
other text is reported where it stands. What is written for a number is its one canonical numeral,
so constants of integer types have the same text just if they are the same number. -/
theorem integer_text_exact (types : TypeTable) (e : Executable) (place : Place) :
    (∀ n : Int, (⟨.text (integer n), place⟩ : Node).integer = .ok n) ∧
      (∀ (s : String) (n : Int), (⟨.text s, place⟩ : Node).integer = .ok n ↔
        ∃ d : Numeral, d.text = s ∧ d.value = n) ∧
      (∀ s : String,
        (⟨.text s, place⟩ : Node).integer = .error (.fault place (.expected .integer)) ↔
          ¬ ∃ d : Numeral, d.text = s) ∧
      (∀ (n : Int) (s : String),
        s = integer n ↔ ∃ d : Numeral, d.Canonical ∧ d.value = n ∧ d.text = s) ∧
      ∀ t t' : Ty, t.ReadsIntegers → t'.ReadsIntegers →
        (∀ d : Numeral, readValue types (some t) (some ⟨.text d.text, place⟩) =
          .ok (.static (.int d.value))) ∧
        (∀ n : Int, t.valueText e.operand (.static (.int n)) = .ok (integer n)) ∧
        ∀ m n : Int, t.valueText e.operand (.static (.int m)) =
          t'.valueText e.operand (.static (.int n)) ↔ m = n := by
  refine ⟨fun n => ?_, fun _ _ => Node.integer_text_eq_ok_iff,
    fun _ => Node.integer_text_eq_error_iff, fun _ _ => Numeral.text_eq_integer_iff,
    fun t t' ht ht' => ⟨fun d => ht.readValue_text types d place, ht.dataText_int _, fun m n => ?_⟩⟩
  · exact Node.integer_text_eq_ok_iff.mpr ⟨.ofInt n, Numeral.text_ofInt n, Numeral.value_ofInt n⟩
  · have hm : t.valueText e.operand (.static (.int m)) = .ok (integer m) := ht.dataText_int _ m
    have hn : t'.valueText e.operand (.static (.int n)) = .ok (integer n) := ht'.dataText_int _ n
    rw [hm, hn, Except.ok.injEq, integer_inj]

/-- The numeral `-007`. -/
def paddedNumeral : Numeral :=
  ⟨true, ['0', '0', '7'], by decide, List.all_eq_true.mp (by decide)⟩

/-- A padded numeral is a constant of a named type of integers. It is written without the zeros,
and not like the literal seven. -/
theorem padded_text_exact :
    (Ty.declared "Offset" (.ofInt 64 true)).ReadsIntegers ∧ (Ty.ofPlain .intLiteral).ReadsIntegers ∧
      paddedNumeral.text = "-007" ∧
      readValue .builtin (some (.declared "Offset" (.ofInt 64 true))) (some ⟨.text "-007", []⟩) =
        .ok (.static (.int (-7))) ∧
      (Ty.declared "Offset" (.ofInt 64 true)).valueText Executable.empty.operand
        (.static (.int (-7))) = .ok "-7" ∧
      (Ty.declared "Offset" (.ofInt 64 true)).valueText Executable.empty.operand
          (.static (.int (-7))) ≠
        (Ty.ofPlain .intLiteral).valueText Executable.empty.operand (.static (.int 7)) := by
  have hname : (Ty.declared "Offset" (.ofInt 64 true)).ReadsIntegers := trivial
  have hliteral : (Ty.ofPlain .intLiteral).ReadsIntegers := trivial
  have htext : paddedNumeral.text = "-007" := by decide
  have hvalue : paddedNumeral.value = -7 := by decide
  obtain ⟨-, -, -, -, htypes⟩ := integer_text_exact .builtin Executable.empty []
  obtain ⟨hconstant, hshown, halike⟩ := htypes _ _ hname hliteral
  have hoffset := hconstant paddedNumeral
  rw [htext, hvalue] at hoffset
  refine ⟨hname, hliteral, htext, hoffset, hshown (-7), fun heq => ?_⟩
  exact absurd ((halike (-7) 7).mp heq) (by decide)

end BlockIr
