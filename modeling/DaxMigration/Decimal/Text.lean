import DaxMigration.Decimal.Shortest

/-!
# Decimal text

Two ways to write a binary number: the fewest digits that read back, with a point or an exponent
according to size, and a fixed number of places.
-/

namespace DaxMigration.Decimal

def zeros (n : Nat) : String :=
  String.ofList (List.replicate n '0')

/-- Positional from `10 ^ -5` to below `10 ^ 16`, otherwise one digit, the rest, and an exponent. A
positional number always shows a digit after the point. -/
def Digits.text (d : Digits) : String :=
  let s := toString d.digits
  let point : Int := s.length + d.exponent
  if 0 ≤ d.exponent && point ≤ 16 then s ++ zeros d.exponent.toNat ++ ".0"
  else if 0 < point && point ≤ 16 then
    let cs := s.toList
    String.ofList (cs.take point.toNat) ++ "." ++ String.ofList (cs.drop point.toNat)
  else if -5 < point && point ≤ 0 then "0." ++ zeros (-point).toNat ++ s
  else
    let mantissa :=
      match s.toList with
      | first :: second :: rest => String.ofList (first :: '.' :: second :: rest)
      | _ => s
    mantissa ++ "e" ++ toString (point - 1)

namespace Binary64

def text? : Binary64 → Option String
  | finite negative m e =>
    let sign := if negative then "-" else ""
    some (sign ++ (if m = 0 then "0.0" else (shortest m e).text))
  | _ => none

/-- Exactly `places` digits after the point; halves of the exact binary value go to the even
digit. -/
def fixedText (places : Nat) : Binary64 → String
  | finite negative m e =>
    let r := ratio m e
    let unit := Nat.pow 10 places
    let n := divideHalfEven (r.1 * unit) r.2
    let fraction := toString (n % unit)
    let sign := if negative then "-" else ""
    let whole := sign ++ toString (n / unit)
    if places = 0 then whole
    else whole ++ "." ++ zeros (places - fraction.length) ++ fraction
  | infinite negative => if negative then "-inf" else "inf"
  | undefined => "NaN"

end Binary64

end DaxMigration.Decimal
