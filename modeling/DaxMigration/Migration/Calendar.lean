import DaxMigration.Migration.Session
import DaxMigration.Text.Quoted

/-!
# Dates of sessions

A session is named after the second at which it began and a number. Seconds are counted from the
beginning of 1970 in universal time.
-/

namespace DaxMigration.Migration

structure Moment where
  year : Nat
  month : Nat
  day : Nat
  hour : Nat
  minute : Nat
  second : Nat
deriving DecidableEq

namespace Moment

/-- Days of four centuries, and of the years in them, which are counted from March so that a leap day
is the last of its year. -/
def daysOfEra : Nat := 146097

/-- Days from the first of March of the year zero to the beginning of 1970. -/
def daysBefore : Nat := 719468

def yearOfEra (day : Nat) : Nat :=
  (day - day / 1460 + day / 36524 - day / 146096) / 365

def ofSeconds (seconds : Nat) : Moment :=
  let days := seconds / 86400 + daysBefore
  let era := days / daysOfEra
  let dayOfEra := days % daysOfEra
  let year := yearOfEra dayOfEra
  let dayOfYear := dayOfEra - (365 * year + year / 4 - year / 100)
  let monthFromMarch := (5 * dayOfYear + 2) / 153
  let month := if monthFromMarch < 10 then monthFromMarch + 3 else monthFromMarch - 9
  let time := seconds % 86400
  { year := year + 400 * era + (if month ≤ 2 then 1 else 0)
    month := month
    day := dayOfYear - (153 * monthFromMarch + 2) / 5 + 1
    hour := time / 3600
    minute := time / 60 % 60
    second := time % 60 }

example : ofSeconds 0 = ⟨1970, 1, 1, 0, 0, 0⟩ := by decide

/-- The leap day of a century. -/
example : ofSeconds 951868799 = ⟨2000, 2, 29, 23, 59, 59⟩ := by decide

/-- A number with zeros in front up to a width. -/
def digits (width n : Nat) : String :=
  let text := (toString n).toList
  String.ofList (List.replicate (width - text.length) '0' ++ text)

def compactText (m : Moment) : String :=
  digits 4 m.year ++ digits 2 m.month ++ digits 2 m.day ++ "_" ++ digits 2 m.hour ++
    digits 2 m.minute ++ digits 2 m.second

def text (m : Moment) : String :=
  digits 4 m.year ++ "-" ++ digits 2 m.month ++ "-" ++ digits 2 m.day ++ "T" ++ digits 2 m.hour ++
    ":" ++ digits 2 m.minute ++ ":" ++ digits 2 m.second ++ "+00:00"

end Moment

/-- The session that begins at a second, told apart from others by some bytes. -/
def Session.begin (seconds : Nat) (bytes : List UInt8) : Session :=
  let moment := Moment.ofSeconds seconds
  let mark := bytes.flatMap fun b => [Text.hexDigit (b.toNat / 16), Text.hexDigit (b.toNat % 16)]
  ⟨"migration_" ++ moment.compactText ++ "_" ++ String.ofList mark, moment.text⟩

end DaxMigration.Migration
