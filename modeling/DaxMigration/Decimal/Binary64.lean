/-!
# Binary floating point of 64 bits

Numbers `± mantissa · 2 ^ exponent` with a mantissa below `2 ^ 53`, two infinities and one undefined
value. Every operation computes its exact result as a quotient of naturals and rounds it once, to
the nearest number and, halfway between two, to the one with the even mantissa.
-/

namespace DaxMigration.Decimal

/-- The quotient rounded to the nearest natural, a half to the even one. -/
def divideHalfEven (num den : Nat) : Nat :=
  let q := num / den
  let r := num % den
  if 2 * r < den then q
  else if den < 2 * r then q + 1
  else if q % 2 = 0 then q else q + 1

theorem divideHalfEven_of_dvd {num den : Nat} (hd : 0 < den) (h : den ∣ num) :
    divideHalfEven num den = num / den := by
  simp [divideHalfEven, Nat.mod_eq_zero_of_dvd h, hd]

inductive Binary64 where
  | finite (negative : Bool) (mantissa : Nat) (exponent : Int)
  | infinite (negative : Bool)
  | undefined
deriving DecidableEq

namespace Binary64

def minExponent : Int := -1074

def maxExponent : Int := 971

def zero (negative : Bool) : Binary64 :=
  finite negative 0 minExponent

/-- `num / den / 2 ^ e` as a quotient of naturals. -/
def scaleBy (num den : Nat) (e : Int) : Nat × Nat :=
  if 0 ≤ e then (num, den <<< e.toNat) else (num <<< (-e).toNat, den)

/-- The number nearest to `num / den`. -/
def ofRatio (negative : Bool) (num den : Nat) : Binary64 :=
  if num = 0 then zero negative
  else
    let guess : Int := (num.log2 : Int) - den.log2 - 52
    let s := scaleBy num den guess
    let e := max minExponent (if s.1 < s.2 <<< 52 then guess - 1 else guess)
    let s := scaleBy num den e
    let m := divideHalfEven s.1 s.2
    let (m, e) := if m = 1 <<< 53 then (1 <<< 52, e + 1) else (m, e)
    if maxExponent < e then infinite negative else finite negative m e

def ofNat (n : Nat) : Binary64 :=
  ofRatio false n 1

/-- The number nearest to `± digits · 10 ^ exponent`. Exponents far out of range need no powers. -/
def ofDecimal (negative : Bool) (digits : Nat) (exponent : Int) : Binary64 :=
  let size : Int := (Nat.toDigits 10 digits).length + exponent
  if digits = 0 then zero negative
  else if 400 < size then infinite negative
  else if size < -400 then zero negative
  else if 0 ≤ exponent then ofRatio negative (digits * Nat.pow 10 exponent.toNat) 1
  else ofRatio negative digits (Nat.pow 10 (-exponent).toNat)

def isFinite : Binary64 → Bool
  | finite _ _ _ => true
  | _ => false

def magnitude : Binary64 → Binary64
  | finite _ m e => finite false m e
  | infinite _ => infinite false
  | undefined => undefined

def negate : Binary64 → Binary64
  | finite n m e => finite (!n) m e
  | infinite n => infinite (!n)
  | undefined => undefined

def ratio (m : Nat) (e : Int) : Nat × Nat :=
  if 0 ≤ e then (m <<< e.toNat, 1) else (m, 1 <<< (-e).toNat)

def multiply : Binary64 → Binary64 → Binary64
  | finite n m e, finite n' m' e' =>
    let r := ratio (m * m') (e + e')
    ofRatio (n != n') r.1 r.2
  | infinite n, finite n' m' _ => if m' = 0 then undefined else infinite (n != n')
  | finite n m _, infinite n' => if m = 0 then undefined else infinite (n != n')
  | infinite n, infinite n' => infinite (n != n')
  | _, _ => undefined

def divide : Binary64 → Binary64 → Binary64
  | finite n m e, finite n' m' e' =>
    if m' = 0 then if m = 0 then undefined else infinite (n != n')
    else
      let r := ratio m e
      let r' := ratio m' e'
      ofRatio (n != n') (r.1 * r'.2) (r.2 * r'.1)
  | infinite n, finite n' _ _ => infinite (n != n')
  | finite n _ _, infinite n' => zero (n != n')
  | _, _ => undefined

/-- The mantissa with its sign, on the scale `2 ^ e`, which is no coarser than its own. -/
def signedAt (e : Int) (negative : Bool) (m : Nat) (own : Int) : Int :=
  let n : Int := (m <<< (own - e).toNat : Nat)
  if negative then -n else n

def subtract : Binary64 → Binary64 → Binary64
  | finite n m e, finite n' m' e' =>
    let common := min e e'
    let d := signedAt common n m e - signedAt common n' m' e'
    let r := ratio d.natAbs common
    ofRatio (d < 0) r.1 r.2
  | infinite n, infinite n' => if n = n' then undefined else infinite n
  | infinite n, finite _ _ _ => infinite n
  | finite _ _ _, infinite n' => infinite (!n')
  | _, _ => undefined

/-- The usual order. The undefined value is less than nothing, and nothing is less than it. -/
def less : Binary64 → Binary64 → Bool
  | finite n m e, finite n' m' e' =>
    let common := min e e'
    signedAt common n m e < signedAt common n' m' e'
  | infinite n, infinite n' => n && !n'
  | infinite n, finite _ _ _ => n
  | finite _ _ _, infinite n' => !n'
  | _, _ => false

/-- `part` of `whole` in hundredths. -/
def percentage (part whole : Nat) : Binary64 :=
  multiply (divide (ofNat part) (ofNat whole)) (ofNat 100)

end Binary64

end DaxMigration.Decimal
