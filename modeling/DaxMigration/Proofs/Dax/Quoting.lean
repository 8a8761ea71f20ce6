import DaxMigration.Dax.Standard
import DaxMigration.Proofs.Formula.Legible
import DaxMigration.Proofs.Formula.Unclosed

/-!
# Spellings that are read back

Names and literals are written between marks, with the closing mark twice wherever the content has
it. Such a spelling is read as one lexeme with the content it was written from. A literal that was
read to its closing mark was spelled in just this way; one that was not ends in an even number of
closing marks.
-/

namespace DaxMigration.Formula

open Text

/-! ## From content to lexeme -/

/-- A lexeme that stands by itself is all that its text is read as. -/
theorem Whole.tokenize_eq {l : Lexeme} (h : Whole l) (hAttached : l.leading = []) :
    tokenize l.text = [l] := by
  have hLegible : Legible [l] := ⟨by simpa using h, by simp [hAttached, allBlank], .singleton l⟩
  have hRead := tokenize_written hLegible
  rwa [written_cons, hAttached, written_nil, List.append_nil, List.nil_append] at hRead

theorem tokenize_literal {c q : Char} {token : List Char → Token} (h : Scan.IsLiteral c q token)
    (s : List Char) :
    tokenize (c :: (double q s ++ [q])) = [⟨token s, c :: (double q s ++ [q]), []⟩] :=
  (whole_literal h s []).tokenize_eq rfl

/-- In front of a field a lexeme is read as before, whatever the field is called. -/
theorem Whole.tokenize_field {l : Lexeme} (h : Whole l) (hAttached : l.leading = [])
    (hEnds : l.token.goesOn '[' = false) (s : List Char) :
    tokenize (l.text ++ '[' :: (double ']' s ++ [']'])) =
      [l, ⟨.field s, '[' :: (double ']' s ++ [']']), []⟩] := by
  have hFits : Fits l ⟨.field s, '[' :: (double ']' s ++ [']']), []⟩ := by
    refine .inr fun d hd => ?_
    obtain rfl : '[' = d := Option.some.inj hd
    exact hEnds
  have hLegible : Legible [l, ⟨.field s, '[' :: (double ']' s ++ [']']), []⟩] := by
    refine ⟨?_, by simp [hAttached, allBlank], by simpa using hFits⟩
    simpa using ⟨h, whole_literal .field s []⟩
  simpa [written, Lexeme.written, hAttached] using tokenize_written hLegible

/-! ## From lexeme to content -/

def leadingMarks (q : Char) (cs : List Char) : Nat :=
  (cs.takeWhile (· == q)).length

/-- The marks at the end of the text are odd in number: one of them is no half of a pair. -/
def EndsUnpaired (q : Char) (cs : List Char) : Prop :=
  leadingMarks q cs.reverse % 2 = 1

instance (q : Char) (cs : List Char) : Decidable (EndsUnpaired q cs) :=
  inferInstanceAs (Decidable (_ = _))

theorem leadingMarks_double (q : Char) (cs : List Char) :
    leadingMarks q (double q cs) = 2 * leadingMarks q cs := by
  unfold leadingMarks
  induction cs with
  | nil => rfl
  | cons c cs ih =>
    rw [double]
    split
    · rename_i hMark
      simp [hMark, ih]
      omega
    · rename_i hOther
      simp [hOther]

theorem double_reverse (q : Char) (cs : List Char) : (double q cs).reverse = double q cs.reverse := by
  induction cs with
  | nil => rfl
  | cons c cs ih =>
    rw [List.reverse_cons, double_append, ← ih]
    by_cases hMark : c = q <;> simp [double, hMark]

/-- Doubled content ends in pairs. -/
theorem not_endsUnpaired_double (q : Char) (cs : List Char) : ¬EndsUnpaired q (double q cs) := by
  rw [EndsUnpaired, double_reverse, leadingMarks_double]
  omega

theorem endsUnpaired_double_mark (q : Char) (cs : List Char) :
    EndsUnpaired q (double q cs ++ [q]) := by
  have hMore : leadingMarks q (double q cs ++ [q]).reverse =
      leadingMarks q (double q cs.reverse) + 1 := by
    rw [List.reverse_append, double_reverse]
    simp [leadingMarks]
  rw [EndsUnpaired, hMore, leadingMarks_double]
  omega

/-- A literal that was read is spelled as its content is, if and only if it ends in a mark that is
no half of a pair. -/
theorem text_eq_iff_endsUnpaired {c q : Char} {token : List Char → Token}
    (hLiteral : Scan.IsLiteral c q token) {cs s : List Char} {l : Lexeme} (h : l ∈ tokenize cs)
    (hToken : l.token = token s) :
    l.text = c :: (double q s ++ [q]) ↔ EndsUnpaired q l.text.tail := by
  constructor
  · intro hText
    rw [hText]
    exact endsUnpaired_double_mark q s
  · intro hUnpaired
    cases hTerminated : l.isTerminated with
    | true =>
      obtain ⟨_, text, leading⟩ := l
      obtain rfl : _ = token s := hToken
      simpa [isTerminated_literal hLiteral] using hTerminated
    | false =>
      obtain ⟨-, q', -, -, hUnclosed⟩ := tokenize_of_unterminated h hTerminated
      obtain ⟨hOpened, s', leading⟩ := hUnclosed
      have hMark : q' = q := by cases hLiteral <;> cases hOpened <;> cases hToken <;> rfl
      rw [hMark] at hUnpaired
      exact absurd hUnpaired (not_endsUnpaired_double q s')

end DaxMigration.Formula

namespace DaxMigration.Dax

open Formula Text

/-- A text in single quotes that names no table is written as a literal with the same content. -/
theorem exists_normalize_singleQuoted {l : Lexeme} {s : List Char} (hToken : l.token = .singleQuoted s)
    {rest : List Lexeme} (hRest : namesTable rest = false) :
    ∃ l', normalize (l :: rest) = l' :: normalize rest ∧
      tokenize l'.text = [⟨.string s, l'.text, []⟩] := by
  refine ⟨⟨.string s, '"' :: (double '"' s ++ ['"']), l.leading⟩, ?_, tokenize_literal .string s⟩
  rw [normalize, hToken]
  simp [hRest]

theorem tokenize_tableRef {name : List Char} (h : isPlainName name = false) :
    tokenize (tableRef name) = [⟨.singleQuoted name, tableRef name, []⟩] := by
  have hQuoted : tableRef name = '\'' :: (double '\'' name ++ ['\'']) := by simp [tableRef, h]
  rw [hQuoted]
  exact tokenize_literal .singleQuoted name

/-- Whatever a column, a literal or a table is called, its spelling is read as that name and nothing
else; and a field that was closed is spelled as its name is. -/
theorem spellings_read_back :
    (∀ n, tokenize ("Sales[".toList ++ (double ']' n ++ [']'])) =
      [⟨.identifier "SALES".toList, "Sales".toList, []⟩, ⟨.field n, bracketed n, []⟩]) ∧
    (∀ (l : Lexeme) (s : List Char) (rest : List Lexeme), l.token = .singleQuoted s →
      namesTable rest = false → ∃ l', normalize (l :: rest) = l' :: normalize rest ∧
        tokenize l'.text = [⟨.string s, l'.text, []⟩]) ∧
    (∀ t, isPlainName t = false → tokenize (tableRef t) = [⟨.singleQuoted t, tableRef t, []⟩]) ∧
    ∀ (cs : List Char), ∀ l ∈ tokenize cs, ∀ name, l.token = .field name →
      (l.text = bracketed name ↔ EndsUnpaired ']' l.text.tail) := by
  refine ⟨fun n => ?_, fun l s rest hToken hRest => exists_normalize_singleQuoted hToken hRest,
    fun t ht => tokenize_tableRef ht, fun cs l hl name hToken => ?_⟩
  · have hSales : Whole ⟨.identifier "SALES".toList, "Sales".toList, []⟩ :=
      @whole_name "Sales".toList (by decide) []
    exact hSales.tokenize_field rfl rfl n
  · exact text_eq_iff_endsUnpaired .field hl hToken

/-- Runs of marks at the ends of the names. -/
theorem spellings_read_back_runs :
    let quotes := ['\'', '\'', 'a', '"', '"']
    tokenize "Sales[]]a]]]]]".toList =
        [⟨.identifier "SALES".toList, "Sales".toList, []⟩,
          ⟨.field "]a]]".toList, "[]]a]]]]]".toList, []⟩] ∧
      (∃ l', normalize [⟨.singleQuoted quotes, [], []⟩] = [l'] ∧
        tokenize l'.text = [⟨.string quotes, l'.text, []⟩]) ∧
      tokenize (tableRef quotes) = [⟨.singleQuoted quotes, tableRef quotes, []⟩] ∧
      EndsUnpaired ']' "]]a]]]".toList ∧ "[]]a]]]".toList = bracketed "]a]".toList := by
  intro quotes
  obtain ⟨hColumn, hLiteral, hTable, hField⟩ := spellings_read_back
  refine ⟨hColumn "]a]]".toList, hLiteral _ quotes [] rfl rfl, hTable quotes (by decide), by decide, ?_⟩
  exact (hField "[]]a]]]".toList ⟨.field "]a]".toList, "[]]a]]]".toList, []⟩ (by decide +kernel) _ rfl).2
    (by decide)

end DaxMigration.Dax
