import DaxMigration.Text.Printable

/-!
# Quoted text

Two ways to write a text between delimiters. Doubling writes the closing delimiter twice wherever
it occurs; escaping puts a backslash before the delimiter and spells out what cannot be printed.
-/

namespace DaxMigration.Text

/-- Writes every `q` twice. -/
def double (q : Char) : List Char → List Char
  | [] => []
  | c :: rest => if c = q then q :: q :: double q rest else c :: double q rest

theorem double_append (q : Char) (a b : List Char) :
    double q (a ++ b) = double q a ++ double q b := by
  induction a with
  | nil => rfl
  | cons c rest ih => by_cases h : c = q <;> simp [double, h, ih]

theorem double_of_not_mem {q : Char} {cs : List Char} (h : q ∉ cs) : double q cs = cs := by
  induction cs with
  | nil => rfl
  | cons c rest ih =>
    simp only [List.mem_cons, not_or] at h
    rw [double, if_neg (Ne.symm h.1), ih h.2]

def hexDigit (n : Nat) : Char :=
  if n < 10 then Char.ofNat (0x30 + n) else Char.ofNat (0x61 + n - 10)

def hexDigits (n : Nat) : List Char :=
  if n < 16 then [hexDigit n] else hexDigits (n / 16) ++ [hexDigit (n % 16)]
termination_by n

def escapeChar (quote c : Char) : List Char :=
  if c = quote || c = '\\' then ['\\', c]
  else if c = '\n' then ['\\', 'n']
  else if c = '\t' then ['\\', 't']
  else if c = '\r' then ['\\', 'r']
  else if c.toNat = 0 then ['\\', '0']
  else if isPrintable c then [c]
  else ['\\', 'u', '\x7b'] ++ hexDigits c.toNat ++ ['\x7d']

def escaped (quote : Char) (cs : List Char) : List Char :=
  quote :: cs.flatMap (escapeChar quote) ++ [quote]

end DaxMigration.Text
