import DaxMigration.Text.Blank
import DaxMigration.Text.Case
import DaxMigration.Text.Letter
import DaxMigration.Text.Quoted

/-!
# Texts but for letter case

Two texts are equal up to the case of ASCII letters when they have the same caseless form. What is asked
of single characters, the white space around a text and the doubling of its marks do not tell the two
cases of a letter apart.
-/

namespace DaxMigration.Text

def caseless (cs : List Char) : List Char :=
  cs.map Char.toLower

theorem equalAsciiCase_iff_caseless {a b : List Char} :
    equalAsciiCase a b = true ↔ caseless a = caseless b :=
  equalAsciiCase_iff

/-! ## Characters -/

/-- What is the same for both cases of the 26 letters is the same in lower case. -/
theorem apply_toLower {β : Type} {f : Char → β}
    (h : ∀ n < 26, f (Char.ofNat (97 + n)) = f (Char.ofNat (65 + n))) (c : Char) : f c.toLower = f c := by
  by_cases hUpper : c.val ≥ 'A'.val ∧ c.val ≤ 'Z'.val
  · obtain ⟨n, hn, rfl⟩ : ∃ n < 26, Char.ofNat (65 + n) = c := by
      have hLow : 65 ≤ c.toNat := hUpper.1
      have hHigh : c.toNat ≤ 90 := hUpper.2
      refine ⟨c.toNat - 65, by omega, ?_⟩
      rw [Nat.add_sub_cancel' hLow, Char.ofNat_toNat]
    have hLower : ∀ n < 26, (Char.ofNat (65 + n)).toLower = Char.ofNat (97 + n) := by decide
    rw [hLower n hn, h n hn]
  · have hSame : c.toLower = c := dif_neg hUpper
    rw [hSame]

@[simp]
theorem isBlank_toLower (c : Char) : isBlank c.toLower = isBlank c :=
  apply_toLower (by decide) c

@[simp]
theorem isDigit_toLower (c : Char) : c.toLower.isDigit = c.isDigit :=
  apply_toLower (f := Char.isDigit) (by decide) c

@[simp]
theorem isAlphabetic_toLower (c : Char) : isAlphabetic c.toLower = isAlphabetic c :=
  apply_toLower (by decide) c

@[simp]
theorem upperChar_toLower (c : Char) : upperChar c.toLower = upperChar c :=
  apply_toLower (by decide) c

@[simp]
theorem toLower_toLower (c : Char) : c.toLower.toLower = c.toLower :=
  apply_toLower (f := Char.toLower) (by decide) c

theorem toLower_of_not_isAlphabetic {c : Char} (h : isAlphabetic c = false) : c.toLower = c := by
  have hSame := apply_toLower (f := fun c => isAlphabetic c || decide (c.toLower = c)) (by decide) c
  simpa [h] using hSame.symm

/-- A mark that is no letter is met in its one case only. -/
theorem toLower_eq_iff {c d : Char} (hd : ∀ n < 26, Char.ofNat (97 + n) ≠ d ∧ Char.ofNat (65 + n) ≠ d) :
    c.toLower = d ↔ c = d := by
  have hSame := apply_toLower (f := fun c => decide (c = d)) (by
    intro n hn
    simp [hd n hn]) c
  simpa using hSame

/-! ## Texts -/

@[simp]
theorem caseless_nil : caseless [] = [] := rfl

@[simp]
theorem caseless_cons (c : Char) (cs : List Char) : caseless (c :: cs) = c.toLower :: caseless cs := rfl

@[simp]
theorem caseless_append (a b : List Char) : caseless (a ++ b) = caseless a ++ caseless b :=
  List.map_append

@[simp]
theorem length_caseless (cs : List Char) : (caseless cs).length = cs.length :=
  List.length_map _

@[simp]
theorem isEmpty_caseless (cs : List Char) : (caseless cs).isEmpty = cs.isEmpty :=
  List.isEmpty_map

@[simp]
theorem caseless_caseless (cs : List Char) : caseless (caseless cs) = caseless cs := by
  rw [caseless, caseless, List.map_map]
  apply List.map_congr_left
  intro c _
  exact toLower_toLower c

@[simp]
theorem equalAsciiCase_caseless (a b : List Char) : equalAsciiCase (caseless a) b = equalAsciiCase a b := by
  rw [Bool.eq_iff_iff, equalAsciiCase_iff_caseless, equalAsciiCase_iff_caseless, caseless_caseless]

variable {p : Char → Bool}

theorem takeWhile_caseless (h : ∀ c, p c.toLower = p c) (cs : List Char) :
    (caseless cs).takeWhile p = caseless (cs.takeWhile p) := by
  rw [caseless, List.takeWhile_map, funext (f := p ∘ Char.toLower) h]
  rfl

theorem dropWhile_caseless (h : ∀ c, p c.toLower = p c) (cs : List Char) :
    (caseless cs).dropWhile p = caseless (cs.dropWhile p) := by
  rw [caseless, List.dropWhile_map, funext (f := p ∘ Char.toLower) h]
  rfl

theorem dropTrailing_caseless (h : ∀ c, p c.toLower = p c) (cs : List Char) :
    dropTrailing p (caseless cs) = caseless (dropTrailing p cs) := by
  induction cs with
  | nil => rfl
  | cons c cs ih =>
    rw [caseless_cons, dropTrailing_cons, dropTrailing_cons, ih, isEmpty_caseless, h]
    split <;> rfl

theorem trim_caseless (cs : List Char) : trim (caseless cs) = caseless (trim cs) := by
  rw [trim, trim, trimStart, trimStart, dropWhile_caseless isBlank_toLower, trimEnd, trimEnd,
    dropTrailing_caseless isBlank_toLower]

theorem stripBoth_caseless (h : ∀ c, p c.toLower = p c) (cs : List Char) :
    stripBoth p (caseless cs) = caseless (stripBoth p cs) := by
  rw [stripBoth, stripBoth, dropWhile_caseless h, dropTrailing_caseless h]

@[simp]
theorem allBlank_caseless (cs : List Char) : allBlank (caseless cs) = allBlank cs := by
  rw [allBlank, allBlank, caseless, List.all_map]
  exact congrArg cs.all (funext isBlank_toLower)

theorem double_caseless {q : Char} (hq : ∀ c : Char, c.toLower = q ↔ c = q) (cs : List Char) :
    double q (caseless cs) = caseless (double q cs) := by
  induction cs with
  | nil => rfl
  | cons c cs ih =>
    have hMark : q.toLower = q := (hq q).2 rfl
    by_cases hc : c = q
    · rw [caseless_cons, double, double, if_pos hc, if_pos ((hq c).2 hc), ih, caseless_cons, caseless_cons,
      hMark]
    · rw [caseless_cons, double, double, if_neg hc, if_neg (mt (hq c).1 hc), ih, caseless_cons]

@[simp]
theorem upper_caseless (cs : List Char) : upper (caseless cs) = upper cs := by
  rw [upper, caseless, List.flatMap_map]
  exact congrArg (cs.flatMap ·) (funext upperChar_toLower)

end DaxMigration.Text
