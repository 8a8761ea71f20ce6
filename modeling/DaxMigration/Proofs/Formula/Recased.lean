import DaxMigration.Proofs.Formula.CaselessRows
import DaxMigration.Proofs.Formula.Lossless
import Mathlib.Data.List.Forall2

/-!
# Names in another case

A formula with letters of its names in the other case is read to the same tokens. All other text is as it
was, and a name stands for its token in any case.
-/

namespace DaxMigration.Formula

open Text

def Token.isName : Token → Bool
  | identifier _ | boolean _ => true
  | _ => false

structure Lexeme.Recased (l l' : Lexeme) : Prop where
  token : l'.token = l.token
  leading : l'.leading = l.leading
  text : l'.text = l.text ∨ l.token.isName = true ∧ equalAsciiCase l'.text l.text = true

instance (l l' : Lexeme) : Decidable (l.Recased l') :=
  decidable_of_iff (l'.token = l.token ∧ l'.leading = l.leading ∧
    (l'.text = l.text ∨ l.token.isName = true ∧ equalAsciiCase l'.text l.text = true))
    ⟨fun ⟨token, leading, text⟩ => ⟨token, leading, text⟩, fun h => ⟨h.token, h.leading, h.text⟩⟩

def Recased (a b : List Char) : Prop :=
  ∃ ls trailing, List.Forall₂ Lexeme.Recased (tokenize a) ls ∧
    written (tokenize a) ++ trailing = a ∧ written ls ++ trailing = b

theorem Lexeme.Recased.caseless_text {l l' : Lexeme} (h : l.Recased l') :
    Text.caseless l'.text = Text.caseless l.text := by
  rcases h.text with hSame | ⟨-, hCase⟩
  · rw [hSame]
  · exact equalAsciiCase_iff_caseless.1 hCase

theorem caseless_written_recased {ls ls' : List Lexeme} (h : List.Forall₂ Lexeme.Recased ls ls') :
    caseless (written ls) = caseless (written ls') := by
  induction h with
  | nil => rfl
  | cons hFirst _ ih =>
    rw [written_cons, written_cons, hFirst.leading]
    simp only [caseless_append, hFirst.caseless_text, ih]

theorem Recased.caseless_eq {a b : List Char} (h : Recased a b) : caseless a = caseless b := by
  obtain ⟨ls, trailing, hRows, hFirst, hSecond⟩ := h
  rw [← hFirst, ← hSecond, caseless_append, caseless_append, caseless_written_recased hRows]

/-- Reading the recased text meets the same tokens: its lexemes are as long as the first ones, so that what is
no name is the same text, and a name stands for the same token in any case. -/
theorem map_token_of_recased {ls ls' read : List Lexeme} (h : List.Forall₂ Lexeme.Recased ls ls')
    (hAlike : ls.map Lexeme.caseless = read.map Lexeme.caseless)
    (hAlone : ∀ l ∈ ls, tokenize l.text = [⟨l.token, l.text, []⟩])
    (hRead : ∀ l ∈ read, tokenize l.text = [⟨l.token, l.text, []⟩]) {x y : List Char}
    (hText : written ls' ++ x = written read ++ y) : ls.map Lexeme.token = read.map Lexeme.token := by
  induction h generalizing read with
  | nil =>
    rw [List.map_nil, eq_comm, List.map_eq_nil_iff] at hAlike
    rw [hAlike]
  | @cons l l' ls ls' hFirst _ ih =>
    cases read with
    | nil => cases hAlike
    | cons m read =>
      obtain ⟨hHere, hRest⟩ := List.cons.inj hAlike
      obtain ⟨hAloneHere, hAloneRest⟩ := List.forall_mem_cons.1 hAlone
      obtain ⟨hReadHere, hReadRest⟩ := List.forall_mem_cons.1 hRead
      simp only [Lexeme.caseless, Lexeme.mk.injEq] at hHere
      obtain ⟨hToken, hLetters, hBlanks⟩ := hHere
      have hLeading : l'.leading.length = m.leading.length := by
        rw [hFirst.leading, ← length_caseless, hBlanks, length_caseless]
      have hLength : l'.text.length = m.text.length := by
        rw [← length_caseless, hFirst.caseless_text, hLetters, length_caseless]
      rw [written_cons, written_cons, List.append_assoc, List.append_assoc, List.append_assoc,
        List.append_assoc] at hText
      obtain ⟨-, hText⟩ := List.append_inj hText hLeading
      obtain ⟨hSame, hText⟩ := List.append_inj hText hLength
      have hTokens : l.token = m.token := by
        rcases hFirst.text with hKept | ⟨hName, -⟩
        · rw [← hSame, hKept, hAloneHere] at hReadHere
          exact (Lexeme.mk.inj (List.cons.inj hReadHere).1).1
        · have hPlain : l.token.isCased = false := by
            cases hKind : l.token <;> rw [hKind] at hName <;> first | rfl | cases hName
          rw [Token.caseless_of_not_isCased hPlain] at hToken
          exact ((Token.caseless_eq_iff hPlain).1 hToken.symm).symm
      rw [List.map_cons, List.map_cons, hTokens, ih hRest hAloneRest hReadRest hText]

theorem Recased.map_token {a b : List Char} (h : Recased a b) :
    (tokenize a).map Lexeme.token = (tokenize b).map Lexeme.token := by
  have hAlike : (tokenize a).map Lexeme.caseless = (tokenize b).map Lexeme.caseless := by
    rw [← tokenize_caseless, h.caseless_eq, tokenize_caseless]
  obtain ⟨ls, trailing, hRows, -, hSecond⟩ := h
  obtain ⟨trailing', -, hWritten⟩ := written_tokenize b
  have hText := hSecond.trans hWritten.symm
  exact map_token_of_recased hRows hAlike (fun _ => tokenize_text) (fun _ => tokenize_text) hText

/-- The functions and the fields of a formula are told by its tokens. -/
theorem Recased.facts {a b : List Char} (h : Recased a b) :
    (facts (tokenize a)).functions = (facts (tokenize b)).functions ∧
      (facts (tokenize a)).fields = (facts (tokenize b)).fields := by
  have hAlike : (tokenize a).map Lexeme.caseless = (tokenize b).map Lexeme.caseless := by
    rw [← tokenize_caseless, h.caseless_eq, tokenize_caseless]
  have hNames : calledNames (tokenize a) = calledNames (tokenize b) := by
    rw [← calledNames_caseless, hAlike, calledNames_caseless]
  have hFields : ∀ ls : List Lexeme,
      ls.filterMap (fieldName? ·.token) = (ls.map Lexeme.token).filterMap fieldName? := by
    intro ls
    rw [List.filterMap_map]
    rfl
  constructor
  · exact congrArg List.eraseDups hNames
  · rw [Formula.facts, Formula.facts, hFields, hFields, h.map_token]

end DaxMigration.Formula
