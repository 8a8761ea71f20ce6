import DaxMigration.Json.Basic
import DaxMigration.Json.Source

/-!
# The meaning of written JSON

Numbers without fraction and exponent are integers while they fit into 64 bits, and floating point
otherwise; a number beyond the floating point range, an unpaired surrogate and nesting of 128 levels
have no meaning. Records are read from objects, where unknown members are skipped and a member given
twice is refused, or from arrays of their fields in order.
-/

namespace DaxMigration.Json

open Decimal

/-- Digits kept while they fit into 64 bits, and the number of digits dropped after them. -/
def keepDigits (significand : Nat) : List Char → Nat × List Char
  | [] => (significand, [])
  | c :: rest =>
    let next := 10 * significand + (c.toNat - '0'.toNat)
    if 1 <<< 64 ≤ next then (significand, c :: rest) else keepDigits next rest

/-- `significand · 10 ^ exponent` in at most one rounding of the significand, one of the power and
one of their product or quotient. -/
def scaleDecimal? (significand : Nat) (exponent : Int) : Option Binary64 :=
  let x := Binary64.ofNat significand
  if significand = 0 then some x
  else if 308 < exponent then none
  else if 0 ≤ exponent then
    let y := x.multiply (Binary64.ofDecimal false 1 exponent)
    if y.isFinite then some y else none
  else if -308 ≤ exponent then some (x.divide (Binary64.ofDecimal false 1 (-exponent)))
  else
    let y := x.divide (Binary64.ofDecimal false 1 308)
    if -616 ≤ exponent then some (y.divide (Binary64.ofDecimal false 1 (-exponent - 308)))
    else some (Binary64.zero false)

namespace NumberLiteral

def exponentValue (n : NumberLiteral) : Int :=
  match n.exponent with
  | some (negative, digits) =>
    let e : Int := natOfDigits digits
    if negative then -e else e
  | none => 0

def float? (n : NumberLiteral) : Option Binary64 :=
  let (kept, dropped) := keepDigits 0 n.whole
  let (kept, left) := keepDigits kept n.fraction
  let exponent : Int := (dropped.length + left.length : Nat) - (n.fraction.length : Int)
  (scaleDecimal? kept (exponent + n.exponentValue)).map fun x => if n.negative then x.negate else x

def value? (n : NumberLiteral) : Option Json :=
  let m := natOfDigits n.whole
  if !n.fraction.isEmpty || n.exponent.isSome then n.float?.map .float
  else if !n.negative && m < 1 <<< 64 then some (.integer m)
  else if n.negative && 0 < m && m ≤ 1 <<< 63 then some (.integer (-m))
  else n.float?.map .float

end NumberLiteral

def isHighSurrogate (n : Nat) : Bool :=
  0xD800 ≤ n && n < 0xDC00

def isLowSurrogate (n : Nat) : Bool :=
  0xDC00 ≤ n && n < 0xE000

def characters? : List StringUnit → Option (List Char)
  | [] => some []
  | .char c :: rest => (characters? rest).map (c :: ·)
  | .unit h :: .unit l :: rest =>
    if isHighSurrogate h then
      if isLowSurrogate l then
        (characters? rest).map (Char.ofNat (0x10000 + (h - 0xD800) * 0x400 + (l - 0xDC00)) :: ·)
      else none
    else if isLowSurrogate h then none
    else (characters? (.unit l :: rest)).map (Char.ofNat h :: ·)
  | .unit n :: rest =>
    if isHighSurrogate n || isLowSurrogate n then none
    else (characters? rest).map (Char.ofNat n :: ·)

def text? (units : List StringUnit) : Option String :=
  (characters? units).map String.ofList

namespace Source

/-- A container may stand inside at most 126 others. -/
def maxDepth : Nat := 127

mutual

/-- The value of a written piece that may hold `room` more levels. -/
def valueWithin? (room : Nat) : Source → Option Json
  | null => some .null
  | bool value => some (.bool value)
  | number literal => literal.value?
  | string units => (text? units).map .string
  | array items => if room = 0 then none else (itemsWithin? (room - 1) items).map .array
  | object members =>
    if room = 0 then none
    else (membersWithin? (room - 1) members).map fun ms => .ofMembers (.ofList ms)

def itemsWithin? (room : Nat) : List Source → Option (List Json)
  | [] => some []
  | s :: rest => do
    let j ← valueWithin? room s
    let js ← itemsWithin? room rest
    return j :: js

def membersWithin? (room : Nat) : List (List StringUnit × Source) → Option (List (String × Json))
  | [] => some []
  | (k, s) :: rest => do
    let k ← text? k
    let j ← valueWithin? room s
    let js ← membersWithin? room rest
    return (k, j) :: js

end

def valueAt? (depth : Nat) (s : Source) : Option Json :=
  valueWithin? (maxDepth - depth) s

def string? : Source → Option String
  | string units => text? units
  | _ => none

def bool? : Source → Option Bool
  | bool value => some value
  | _ => none

def list? {α : Type} (item? : Source → Option α) : Source → Option (List α)
  | array items => items.mapM item?
  | _ => none

def members? : Source → Option (List (String × Source))
  | object members => members.mapM fun (k, s) => (text? k).map (·, s)
  | _ => none

def map? {α : Type} (item? : Source → Option α) (s : Source) : Option (KeyMap α) := do
  let entries ← (← s.members?).mapM fun (k, v) => (item? v).map (k, ·)
  return .ofList entries

/-- The fields of a record in the order of `names`, where a field may be absent. -/
def record? (names : List String) : Source → Option (List (Option Source))
  | array items =>
    if items.length ≤ names.length then
      some (items.map some ++ List.replicate (names.length - items.length) none)
    else none
  | s => do
    let members ← s.members?
    names.mapM fun name =>
      match members.filter (·.1 == name) with
      | [] => some none
      | [(_, v)] => some (some v)
      | _ => none

end Source

def ofText? (s : String) : Option Json := do
  (← Source.ofText? s.toList).valueAt? 0

end DaxMigration.Json
