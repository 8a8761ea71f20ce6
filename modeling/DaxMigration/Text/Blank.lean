/-!
# White space and lines

Classes of characters as ranges of code points, the class White_Space, the cutting of white space
from the two ends of a text, and texts made of lines.
-/

namespace DaxMigration.Text

/-! ## Ranges of code points -/

def within (ranges : List (Nat × Nat)) (c : Char) : Bool :=
  ranges.any fun r => r.1 ≤ c.toNat && c.toNat ≤ r.2

theorem within_iff {ranges : List (Nat × Nat)} {c : Char} :
    within ranges c = true ↔ ∃ r ∈ ranges, r.1 ≤ c.toNat ∧ c.toNat ≤ r.2 := by
  simp [within]

/-! ## White space -/

/-- Code points with the property White_Space, in order. -/
def blankRanges : List (Nat × Nat) := [
    (0x9, 0xD), (0x20, 0x20), (0x85, 0x85), (0xA0, 0xA0), (0x1680, 0x1680), (0x2000, 0x200A),
    (0x2028, 0x2029), (0x202F, 0x202F), (0x205F, 0x205F), (0x3000, 0x3000)]

def isBlank (c : Char) : Bool :=
  within blankRanges c

def allBlank (cs : List Char) : Bool :=
  cs.all isBlank

def trimStart (cs : List Char) : List Char :=
  cs.dropWhile isBlank

def dropTrailing (p : Char → Bool) (cs : List Char) : List Char :=
  cs.foldr (fun c rest => if rest.isEmpty && p c then [] else c :: rest) []

def trimEnd (cs : List Char) : List Char :=
  dropTrailing isBlank cs

def trim (cs : List Char) : List Char :=
  trimEnd (trimStart cs)

def stripBoth (p : Char → Bool) (cs : List Char) : List Char :=
  dropTrailing p (cs.dropWhile p)

@[simp]
theorem dropTrailing_nil (p : Char → Bool) : dropTrailing p [] = [] := rfl

theorem dropTrailing_cons (p : Char → Bool) (c : Char) (cs : List Char) :
    dropTrailing p (c :: cs) =
      if (dropTrailing p cs).isEmpty && p c then [] else c :: dropTrailing p cs := rfl

@[simp]
theorem trim_nil : trim [] = [] := rfl

/-! ## Lines -/

/-- Lines, each ended. -/
def ended (lines : List String) : String :=
  String.join (lines.map (· ++ "\n"))

theorem not_mem_intercalate {α : Type} {a : α} {sep : List α} {parts : List (List α)}
    (hSep : a ∉ sep) (h : ∀ part ∈ parts, a ∉ part) : a ∉ sep.intercalate parts := by
  induction parts with
  | nil => simp
  | cons part parts ih =>
    cases parts with
    | nil => simpa using h
    | cons next parts =>
      rw [List.intercalate_cons_cons]
      simp only [List.mem_append, not_or]
      exact ⟨⟨h part List.mem_cons_self, hSep⟩, ih fun p hp => h p (List.mem_cons_of_mem _ hp)⟩

end DaxMigration.Text
