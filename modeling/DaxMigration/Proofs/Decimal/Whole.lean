import DaxMigration.Decimal.Reader
import DaxMigration.Proofs.Text.LetterCase
import Mathlib.Algebra.Order.Ring.Abs
import Mathlib.Algebra.Order.Ring.Int
import Mathlib.Data.List.Induction
import Mathlib.Data.List.TakeWhile
import Mathlib.Tactic.Positivity
import Mathlib.Tactic.Ring

/-!
# Whole numbers

Whole numbers below `2 ^ 53` are exact: they are read, subtracted and compared without rounding.
-/

namespace DaxMigration.Decimal

namespace Binary64

def IsWhole (x : Binary64) (z : ℤ) : Prop :=
  ∃ negative m, ∃ scale : ℕ, x = finite negative m (-scale) ∧
    (if negative then -(m : ℤ) else m) = z * 2 ^ scale

/-! ## Rounding -/

theorem log2_mul_two_pow {k : ℕ} (h : k ≠ 0) (j : ℕ) : (k * 2 ^ j).log2 = k.log2 + j := by
  have hPow : 0 < 2 ^ j := Nat.two_pow_pos j
  rw [Nat.log2_eq_iff (Nat.mul_ne_zero h hPow.ne')]
  constructor
  · rw [pow_add]
    exact Nat.mul_le_mul_right _ (Nat.log2_self_le h)
  · rw [show k.log2 + j + 1 = (k.log2 + 1) + j by omega, pow_add]
    exact Nat.mul_lt_mul_of_pos_right Nat.lt_log2_self hPow

theorem scaleBy_neg (num den scale : ℕ) : scaleBy num den (-scale) = (num * 2 ^ scale, den) := by
  unfold scaleBy
  split
  · obtain rfl : scale = 0 := by omega
    simp
  · simp [Nat.shiftLeft_eq]

/-- Shifted to 53 binary digits, a number has as many. -/
theorem shifted_bounds {k scale : ℕ} (h : k ≠ 0) (hScale : 52 = k.log2 + scale) :
    2 ^ 52 ≤ k * 2 ^ scale ∧ k * 2 ^ scale < 2 ^ 53 := by
  constructor
  · calc 2 ^ 52 = 2 ^ k.log2 * 2 ^ scale := by rw [← pow_add, ← hScale]
      _ ≤ k * 2 ^ scale := Nat.mul_le_mul_right _ (Nat.log2_self_le h)
  · calc k * 2 ^ scale < 2 ^ (k.log2 + 1) * 2 ^ scale :=
          Nat.mul_lt_mul_of_pos_right Nat.lt_log2_self (Nat.two_pow_pos scale)
      _ = 2 ^ 53 := by rw [← pow_add, show k.log2 + 1 + scale = 53 by omega]

/-- Below `2 ^ 53` a whole number is not rounded, however the quotient is given. -/
theorem isWhole_ofRatio (negative : Bool) {k : ℕ} (hk : k < 2 ^ 53) (j : ℕ) :
    (ofRatio negative (k * 2 ^ j) (2 ^ j)).IsWhole (if negative then -(k : ℤ) else k) := by
  by_cases hZero : k = 0
  · subst hZero
    refine ⟨negative, 0, 1074, ?_, ?_⟩
    · simp [ofRatio, zero, minExponent]
    · rw [Nat.cast_zero, neg_zero, ite_self, zero_mul]
  · have hPow : 0 < 2 ^ j := Nat.two_pow_pos j
    have hLog : k.log2 ≤ 52 := Nat.lt_succ_iff.1 ((Nat.log2_lt hZero).2 hk)
    obtain ⟨scale, hScale⟩ := Nat.exists_eq_add_of_le hLog
    obtain ⟨hLow, hHigh⟩ := shifted_bounds hZero hScale
    have hGuess : ((k * 2 ^ j).log2 : ℤ) - (2 ^ j).log2 - 52 = -scale := by
      rw [log2_mul_two_pow hZero, Nat.log2_two_pow]
      omega
    have hNum : k * 2 ^ j * 2 ^ scale = k * 2 ^ scale * 2 ^ j := by ring
    -- the guess stands: the shifted number has neither too few digits nor one too many
    have hFits : ¬ k * 2 ^ j * 2 ^ scale < 2 ^ j <<< 52 := by
      rw [hNum, Nat.shiftLeft_eq, mul_comm (2 ^ j)]
      exact not_lt.2 (Nat.mul_le_mul_right _ hLow)
    have hMax : max minExponent (-(scale : ℤ)) = -scale := by
      unfold minExponent
      omega
    have hExact : divideHalfEven (k * 2 ^ j * 2 ^ scale) (2 ^ j) = k * 2 ^ scale := by
      rw [hNum, divideHalfEven_of_dvd hPow (Nat.dvd_mul_left _ _), Nat.mul_div_cancel _ hPow]
    have hSmall : k * 2 ^ scale ≠ 1 <<< 53 := by
      rw [Nat.shiftLeft_eq, one_mul]
      exact hHigh.ne
    have hRange : ¬ maxExponent < -(scale : ℤ) := by
      unfold maxExponent
      omega
    refine ⟨negative, k * 2 ^ scale, scale, ?_, ?_⟩
    · rw [ofRatio, if_neg (Nat.mul_ne_zero hZero hPow.ne')]
      simp only [hGuess, scaleBy_neg, hFits, if_false, hMax, hExact, hSmall, hRange]
    · cases negative <;> simp

/-! ## Operations -/

variable {x y : Binary64} {a b : ℤ}

/-- On a common scale, two whole numbers are compared and subtracted as integers. -/
theorem signedAt_eq {negative : Bool} {m scale : ℕ} {z : ℤ}
    (h : (if negative then -(m : ℤ) else m) = z * 2 ^ scale) {common : ℕ}
    (hCommon : scale ≤ common) :
    signedAt (-common) negative m (-scale) = z * 2 ^ common := by
  have hShift : (-(scale : ℤ) - -(common : ℤ)).toNat = common - scale := by omega
  calc signedAt (-common) negative m (-scale)
      = (if negative then -(m : ℤ) else m) * 2 ^ (common - scale) := by
        unfold signedAt
        rw [hShift, Nat.shiftLeft_eq]
        cases negative <;> simp
    _ = z * 2 ^ common := by rw [h, mul_assoc, ← pow_add, Nat.add_sub_cancel' hCommon]

theorem IsWhole.less_eq (hx : x.IsWhole a) (hy : y.IsWhole b) : x.less y = decide (a < b) := by
  obtain ⟨negative, m, scale, rfl, hValue⟩ := hx
  obtain ⟨negative', m', scale', rfl, hValue'⟩ := hy
  have hCommon : min (-(scale : ℤ)) (-scale') = -(max scale scale' : ℕ) := by omega
  have hPow : (0 : ℤ) < 2 ^ max scale scale' := by positivity
  simp only [less, hCommon, signedAt_eq hValue (le_max_left _ _),
    signedAt_eq hValue' (le_max_right _ _), mul_lt_mul_iff_left₀ hPow]

theorem IsWhole.magnitude (hx : x.IsWhole a) : x.magnitude.IsWhole |a| := by
  obtain ⟨negative, m, scale, rfl, hValue⟩ := hx
  refine ⟨false, m, scale, rfl, ?_⟩
  calc (m : ℤ) = |if negative then -(m : ℤ) else m| := by cases negative <;> simp
    _ = |a| * 2 ^ scale := by rw [hValue, abs_mul, abs_pow, abs_two]

theorem ratio_neg (m scale : ℕ) : ratio (m * 2 ^ scale) (-scale) = (m * 2 ^ scale, 2 ^ scale) := by
  unfold ratio
  split
  · obtain rfl : scale = 0 := by omega
    simp
  · simp [Nat.shiftLeft_eq]

theorem IsWhole.subtract (hx : x.IsWhole a) (hy : y.IsWhole b) (h : |a - b| < 2 ^ 53) :
    (x.subtract y).IsWhole (a - b) := by
  obtain ⟨negative, m, scale, rfl, hValue⟩ := hx
  obtain ⟨negative', m', scale', rfl, hValue'⟩ := hy
  have hCommon : min (-(scale : ℤ)) (-scale') = -(max scale scale' : ℕ) := by omega
  generalize hMax : max scale scale' = common at hCommon
  have hPow : (0 : ℤ) < 2 ^ common := by positivity
  have hDifference : a * 2 ^ common - b * 2 ^ common = (a - b) * 2 ^ common := by ring
  have hSize : ((a - b) * 2 ^ common).natAbs = (a - b).natAbs * 2 ^ common := by
    rw [Int.natAbs_mul, Int.natAbs_pow]
    rfl
  have hSign : (a - b) * 2 ^ common < 0 ↔ a - b < 0 := by
    simpa using mul_lt_mul_iff_left₀ (b := a - b) (c := 0) hPow
  have hSmall : (a - b).natAbs < 2 ^ 53 := by
    rw [Int.abs_eq_natAbs] at h
    exact_mod_cast h
  have hSigned : (if decide (a - b < 0) then -((a - b).natAbs : ℤ) else (a - b).natAbs) = a - b := by
    simp only [decide_eq_true_eq]
    split <;> omega
  have hResult := isWhole_ofRatio (a - b < 0) hSmall common
  rw [hSigned] at hResult
  simpa only [Binary64.subtract, hCommon, signedAt_eq hValue (hMax ▸ le_max_left _ _),
    signedAt_eq hValue' (hMax ▸ le_max_right _ _), hDifference, hSize, ratio_neg, hSign] using hResult

end Binary64

/-! ## Reading -/

/-- The whole number that a text spells: a sign, if any, and one digit to fifteen. -/
def wholeNumber? (cs : List Char) : Option ℤ :=
  let (negative, digits) := takeSign cs
  if digits ≠ [] ∧ digits.all Char.isDigit = true ∧ digits.length ≤ 15 then
    let n := Nat.ofDigitChars 10 digits 0
    some (if negative then -(n : ℤ) else n)
  else none

theorem natOfDigits_eq (cs : List Char) : natOfDigits cs = Nat.ofDigitChars 10 cs 0 :=
  (Nat.ofDigitChars_eq_foldl ..).symm

theorem ofDigitChars_lt {cs : List Char} (h : cs.all Char.isDigit = true) :
    Nat.ofDigitChars 10 cs 0 < 10 ^ cs.length := by
  induction cs using List.reverseRecOn with
  | nil => simp
  | append_singleton cs c ih =>
    simp only [List.all_append, List.all_cons, List.all_nil, Bool.and_true, Bool.and_eq_true] at h
    obtain ⟨hRest, hLast⟩ := h
    have hDigit : c.toNat - '0'.toNat < 10 := by
      have hRange : 48 ≤ c.toNat ∧ c.toNat ≤ 57 := Char.isDigit_iff_toNat.1 hLast
      show c.toNat - 48 < 10
      omega
    have hBound := ih hRest
    rw [Nat.ofDigitChars_append, Nat.ofDigitChars_cons, Nat.ofDigitChars_nil, List.length_append,
      List.length_singleton, pow_succ]
    omega

/-- Digits alone are read as their number. -/
theorem ofText?_eq_ofDecimal {cs digits : List Char} {negative : Bool}
    (hSign : takeSign cs = (negative, digits)) (hNone : digits ≠ [])
    (hDigits : digits.all Char.isDigit = true) :
    Binary64.ofText? cs = some (.ofDecimal negative (Nat.ofDigitChars 10 digits 0) 0) := by
  have hWord (word : String) (hLetter : word.toList.all Char.isDigit = false) :
      String.ofList (digits.map Char.toLower) ≠ word := by
    rintro rfl
    simp only [String.toList_ofList, List.all_map] at hLetter
    have hLower : digits.all (Char.isDigit ∘ Char.toLower) = digits.all Char.isDigit :=
      congrArg digits.all (funext Text.isDigit_toLower)
    rw [hLower, hDigits] at hLetter
    cases hLetter
  have hAll : ∀ c ∈ digits, c.isDigit = true := List.all_eq_true.1 hDigits
  have hTake : digits.takeWhile Char.isDigit = digits := List.takeWhile_eq_self_iff.2 hAll
  have hDrop : digits.dropWhile Char.isDigit = [] := List.dropWhile_eq_nil_iff.2 hAll
  unfold Binary64.ofText?
  simp only [hSign, hWord "inf" (by decide), hWord "infinity" (by decide), hWord "nan" (by decide),
    if_false, unsigned?, hTake, hDrop]
  simp [hNone, exponent?, natOfDigits_eq]

theorem isWhole_ofDecimal (negative : Bool) {n : ℕ} (h : n < 10 ^ 15) :
    (Binary64.ofDecimal negative n 0).IsWhole (if negative then -(n : ℤ) else n) := by
  have hLength : (Nat.toDigits 10 n).length ≤ 15 :=
    (Nat.length_toDigits_le_iff (by decide) (by decide)).2 h
  have hRatio := Binary64.isWhole_ofRatio negative (show n < 2 ^ 53 by omega) 0
  unfold Binary64.ofDecimal
  by_cases hZero : n = 0
  · subst hZero
    simpa [Binary64.ofRatio] using hRatio
  · have hLong : ¬ (400 : ℤ) < (Nat.toDigits 10 n).length + 0 := by omega
    have hShort : ¬ ((Nat.toDigits 10 n).length : ℤ) + 0 < -400 := by omega
    simp only [hZero, hLong, hShort, if_false, le_refl, if_true]
    simpa using hRatio

/-- A text that spells a whole number is read as it, without rounding. -/
theorem ofText?_of_wholeNumber? {cs : List Char} {z : ℤ} (h : wholeNumber? cs = some z) :
    |z| < 10 ^ 15 ∧ ∃ x, Binary64.ofText? cs = some x ∧ x.IsWhole z := by
  unfold wholeNumber? at h
  generalize hSign : takeSign cs = signed at h
  obtain ⟨negative, digits⟩ := signed
  simp only at h
  split at h
  · rename_i hDigits
    obtain ⟨hNone, hDigits, hLength⟩ := hDigits
    have hBound : Nat.ofDigitChars 10 digits 0 < 10 ^ 15 :=
      (ofDigitChars_lt hDigits).trans_le (Nat.pow_le_pow_right (by decide) hLength)
    obtain rfl := Option.some.inj h
    refine ⟨?_, _, ofText?_eq_ofDecimal hSign hNone hDigits, isWhole_ofDecimal negative hBound⟩
    have hCast : (Nat.ofDigitChars 10 digits 0 : ℤ) < 10 ^ 15 := by exact_mod_cast hBound
    cases negative <;> simpa using hCast
  · cases h

end DaxMigration.Decimal
