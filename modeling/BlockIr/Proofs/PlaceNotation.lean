import Mathlib.Algebra.Field.Rat
import Mathlib.Data.List.Basic
import BlockIr.Binary64.Fixed

/-!
# Place notation

A text with a point denotes a number: its digits before and behind the point, read as one number,
count units of the last place. The text of a float constant is in place notation, with six places
and no zero in front that could be left out.

* `Decimal.text_inj`: a text in place notation denotes one number.
* `toDigits_append_lastDigits`: cutting a number before its last digits loses nothing.
* `Decimal.ofPlaces`: a number of millionths in place notation.
-/

namespace BlockIr.Binary64

/-- A number or its negative. -/
def signed (negative : Bool) (x : ℚ) : ℚ := if negative then -x else x

/-! ## Place notation -/

/-- A number in place notation: its sign and its digits before and behind the point. -/
structure Decimal where
  negative : Bool
  whole : List Char
  fraction : List Char

namespace Decimal

def text (d : Decimal) : String :=
  signText d.negative ++ String.ofList (d.whole ++ '.' :: d.fraction)

/-- The digits before and behind the point as one number. -/
def digits (d : Decimal) : Nat := Nat.ofDigitChars 10 (d.whole ++ d.fraction) 0

/-- The number that is denoted. -/
def value (d : Decimal) : ℚ :=
  signed d.negative (d.digits / 10 ^ d.fraction.length)

/-- Decimal digits, no zero in front that could be left out, and six places. -/
structure Normal (d : Decimal) : Prop where
  isDigit : ∀ c ∈ d.whole ++ d.fraction, c.isDigit = true
  whole_ne_nil : d.whole ≠ []
  leading : d.whole.head? = some '0' → d.whole = ['0']
  length_fraction : d.fraction.length = places

theorem Normal.notMem {d : Decimal} (h : d.Normal) {c : Char} (hc : c.isDigit = false) :
    c ∉ d.whole ∧ c ∉ d.fraction := by
  have hdigits : c ∉ d.whole ++ d.fraction := by
    intro hmem
    rw [h.isDigit c hmem] at hc
    cases hc
  rwa [List.mem_append, not_or] at hdigits

theorem toList_text (d : Decimal) :
    d.text.toList = (signText d.negative).toList ++ (d.whole ++ '.' :: d.fraction) := by
  rw [text, String.toList_append, String.toList_ofList]

/-- A text without a sign does not begin with one. -/
theorem Normal.ne_minus {d : Decimal} (h : d.Normal) (cs : List Char) :
    d.whole ++ '.' :: d.fraction ≠ '-' :: cs := by
  intro heq
  cases hwhole : d.whole with
  | nil => exact h.whole_ne_nil hwhole
  | cons c whole =>
    rw [hwhole, List.cons_append] at heq
    have hminus : '-' ∈ d.whole := by
      rw [hwhole, (List.cons_eq_cons.mp heq).1]
      exact List.mem_cons_self
    exact (h.notMem (by decide)).1 hminus

/-- The text shows the sign. -/
theorem Normal.head_text {d : Decimal} (h : d.Normal) :
    d.text.toList.head? = some '-' ↔ d.negative = true := by
  rw [toList_text]
  cases hsign : d.negative with
  | true => exact ⟨fun _ => rfl, fun _ => rfl⟩
  | false =>
    constructor
    · intro hhead
      obtain ⟨cs, hcs⟩ := List.head?_eq_some_iff.mp hhead
      exact absurd hcs (h.ne_minus cs)
    · intro hfalse
      cases hfalse

/-- A text in place notation denotes one number. -/
theorem text_inj {d d' : Decimal} (h : d.Normal) (h' : d'.Normal) (heq : d.text = d'.text) :
    d = d' := by
  have hsign : d.negative = d'.negative := by
    rw [Bool.eq_iff_iff, ← h.head_text, ← h'.head_text, heq]
  have hlist := congrArg String.toList heq
  rw [toList_text, toList_text, hsign] at hlist
  have hdigits := List.append_cancel_left hlist
  have hpoint := h.notMem (c := '.') (by decide)
  rw [List.append_cons_inj_of_notMem hpoint.1 hpoint.2] at hdigits
  obtain ⟨hwhole, -, hfraction⟩ := hdigits
  cases d
  cases d'
  simp only at hsign hwhole hfraction
  rw [hsign, hwhole, hfraction]

end Decimal

/-! ## The digits of a number of millionths -/

theorem isDigit_of_mem_lastDigits {count n : Nat} {c : Char} (h : c ∈ lastDigits count n) :
    c.isDigit = true := by
  induction count generalizing n with
  | zero => cases h
  | succ count ih =>
    rcases List.mem_append.mp h with h | h
    · exact ih h
    · rw [List.mem_singleton.mp h, Nat.isDigit_digitChar]
      exact decide_eq_true (Nat.mod_lt _ (by decide))

theorem div_tenTo_succ (n count : Nat) : n / tenTo (count + 1) = n / 10 / tenTo count := by
  rw [Nat.div_div_eq_div_mul]
  exact congrArg (n / ·) (Nat.mul_comm _ _)

/-- The digits before the point and those behind it are all digits of a number, with zeros in
front if it has too few. -/
theorem toDigits_append_lastDigits (count n : Nat) :
    Nat.toDigits 10 (n / tenTo count) ++ lastDigits count n =
      List.replicate (count + 1 - (Nat.toDigits 10 n).length) '0' ++ Nat.toDigits 10 n := by
  induction count generalizing n with
  | zero =>
    have hpos : 0 < (Nat.toDigits 10 n).length := Nat.length_toDigits_pos
    have hfill : 0 + 1 - (Nat.toDigits 10 n).length = 0 := by omega
    rw [hfill, List.replicate_zero, List.nil_append, lastDigits, List.append_nil]
    exact congrArg (Nat.toDigits 10) (Nat.div_one n)
  | succ count ih =>
    rw [div_tenTo_succ, lastDigits, ← List.append_assoc, ih]
    rcases Nat.lt_or_ge n 10 with hn | hn
    · have hdiv : n / 10 = 0 := Nat.div_eq_of_lt hn
      rw [hdiv, Nat.mod_eq_of_lt hn, Nat.toDigits_of_lt_base hn, Nat.toDigits_zero,
        List.length_singleton, List.length_singleton, Nat.add_sub_cancel, Nat.add_sub_cancel,
        List.replicate_succ']
    · rw [Nat.toDigits_of_base_le (b := 10) (n := n) (by decide) hn, List.length_append,
        List.length_singleton, Nat.add_sub_add_right, List.append_assoc]

theorem ofDigitChars_replicate (count : Nat) (cs : List Char) :
    Nat.ofDigitChars 10 (List.replicate count '0' ++ cs) 0 = Nat.ofDigitChars 10 cs 0 := by
  induction count with
  | zero => rfl
  | succ count ih =>
    rw [List.replicate_succ, List.cons_append, Nat.ofDigitChars_cons]
    exact ih

theorem leading_toDigits {n : Nat} (h : (Nat.toDigits 10 n).head? = some '0') :
    Nat.toDigits 10 n = ['0'] := by
  induction n using Nat.strongRecOn with
  | ind n ih =>
    rcases Nat.lt_or_ge n 10 with hn | hn
    · rw [Nat.toDigits_of_lt_base hn] at h ⊢
      rw [Option.some.inj h]
    · -- The first digit is that of the number without its last one, which is not zero.
      rw [Nat.toDigits_of_base_le (b := 10) (n := n) (by decide) hn,
        List.head?_append_of_ne_nil _ Nat.toDigits_ne_nil] at h
      have hrest := congrArg (Nat.ofDigitChars 10 · 0) (ih (n / 10) (by omega) h)
      simp only [Nat.ofDigitChars_toDigits (b := 10) (n := n / 10) (by decide) (by decide)] at hrest
      have hzero : Nat.ofDigitChars 10 ['0'] 0 = 0 := rfl
      omega

namespace Decimal

/-- A number of millionths in place notation. -/
def ofPlaces (negative : Bool) (n : Nat) : Decimal :=
  ⟨negative, Nat.toDigits 10 (n / tenTo places), lastDigits places n⟩

variable {negative : Bool} {n : Nat}

theorem text_ofPlaces : (ofPlaces negative n).text = signText negative ++ fixedText places n := by
  have hpoint : ".".toList = ['.'] := rfl
  rw [← String.toList_inj, toList_text, fixedText, Nat.repr_eq_ofList_toDigits]
  simp only [String.toList_append, String.toList_ofList, hpoint, List.append_assoc]
  rfl

theorem digits_ofPlaces : (ofPlaces negative n).digits = n := by
  rw [digits, ofPlaces, toDigits_append_lastDigits, ofDigitChars_replicate,
    Nat.ofDigitChars_toDigits (by decide) (by decide)]

theorem normal_ofPlaces : (ofPlaces negative n).Normal where
  isDigit := by
    intro c hc
    rcases List.mem_append.mp hc with hc | hc
    · exact Nat.isDigit_of_mem_toDigits (by decide) (by decide) hc
    · exact isDigit_of_mem_lastDigits hc
  whole_ne_nil := Nat.toDigits_ne_nil
  leading := leading_toDigits
  length_fraction := length_lastDigits _ _

end Decimal

end BlockIr.Binary64
