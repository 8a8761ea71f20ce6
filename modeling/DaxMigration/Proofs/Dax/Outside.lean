import DaxMigration.Proofs.Dax.Lexemes
import DaxMigration.Proofs.Dax.Remarks
import DaxMigration.Proofs.Dax.Swaps

/-!
# Outside of conditionals

A formula that is a conditional goes through spelling and qualification and no other rule. What it
is converted to depends on the table of the target and not on its functions: outside of the blocks a
call keeps its name, no function is reported as lacking, and a quotient stays a quotient.
-/

namespace DaxMigration.Dax

open Formula Text

variable {t t' : Target}

/-! ## The functions of the target -/

theorem qualify_congr (hTable : t'.table = t.table) (previous : Option Token) (ls : List Lexeme) :
    qualify t' previous ls = qualify t previous ls := by
  have hColumn : ∀ name, t'.column name = t.column name := fun name => by
    rw [Target.column, Target.column, Target.tableText, Target.tableText, hTable]
  induction ls generalizing previous with
  | nil => rfl
  | cons l ls ih => simp only [qualify, ih, hColumn]

theorem spliceConditionals_congr (hTable : t'.table = t.table) (room : Nat) :
    spliceConditionals t' room = spliceConditionals t room := by
  induction room with
  | zero => rfl
  | succ room ih =>
    funext ls
    simp only [spliceConditionals, ih, qualified, qualify_congr hTable]

/-- Targets with the same table convert a conditional alike, whatever functions they have. -/
theorem attempt_congr_of_conditional (hTable : t'.table = t.table) {formula : List Char}
    {form : Form} (hKind : classify (tokenize formula) = .conditional form) :
    attempt t' formula = attempt t formula := by
  simp only [attempt, hKind, daxText, spliceConditionals_congr hTable, qualified,
    qualify_congr hTable]

/-! ## Remarks -/

def Remark.isOnBranches : Remark → Bool
  | nestedBranches _ | switchArms _ => true
  | _ => false

theorem gathers_spliceConditionals (room : Nat) (ls : List Lexeme) :
    Gathers (·.isOnBranches = true) (spliceConditionals t room ls) fun _ => True := by
  induction room generalizing ls with
  | zero => exact gathers_failure
  | succ room ih =>
    rw [spliceConditionals]
    have hBranch : ∀ s : Span, Gathers (·.isOnBranches = true)
        (do return qualified t (← spliceConditionals t room (s.slice ls))) fun _ => True :=
      fun s => (ih (s.slice ls)).bind fun _ _ => gathers_pure trivial
    have hCall : ∀ name ∈ ["IF", "SWITCH"], ∀ args : List (List Char),
        (∀ a ∈ args, True) → True := fun _ _ _ _ => trivial
    refine (gathers_mapM (Q := fun _ => True) fun c _ => ?_).bind fun _ _ => gathers_pure trivial
    exact (gathers_convertConditional hCall hBranch trivial (fun _ => rfl) (fun _ => rfl) c).bind
      fun _ _ => gathers_pure trivial

/-! ## Lexemes -/

/-- The second lexeme stands for the first, and is the first one unless that is a field, a text in
single quotes or a sign with a spelling of its own. -/
structure Spared (l l' : Lexeme) : Prop where
  leading : l'.leading = l.leading
  kept : isKept l.token = true ∨ l.token.isIdentifier = true → l' = l
  /-- Nothing is turned into a name or a parenthesis. -/
  named : l'.token.isIdentifier = true ∨ l'.token = .lparen → l' = l

theorem spared_normalize (ls : List Lexeme) : List.Forall₂ Spared ls (normalize ls) := by
  induction ls with
  | nil => exact .nil
  | cons l ls ih =>
    refine .cons ?_ ih
    constructor
    · split
      · rfl
      · rfl
      · split <;> rfl
      · rfl
    · rintro (hKept | hName)
      · split <;> first | rfl | simp_all [isKept]
      · split <;> first | rfl | simp_all [Token.isIdentifier]
    · split
      · simp_all [Token.isIdentifier]
      · simp [Token.isIdentifier]
      · split
        · exact fun _ => rfl
        · simp [Token.isIdentifier]
      · exact fun _ => rfl

theorem spared_qualify (previous : Option Token) (ls : List Lexeme) :
    List.Forall₂ Spared ls (qualify t previous ls) := by
  induction ls generalizing previous with
  | nil => exact .nil
  | cons l ls ih =>
    refine .cons ?_ (ih _)
    constructor
    · split
      · split <;> rfl
      · rfl
    · rintro (hKept | hName)
      · split <;> first | rfl | simp_all [isKept]
      · split <;> first | rfl | simp_all [Token.isIdentifier]
    · split
      · split
        · exact fun _ => rfl
        · simp_all [Token.isIdentifier]
      · exact fun _ => rfl

theorem Spared.trans {l l' l'' : Lexeme} (h : Spared l l') (h' : Spared l' l'') : Spared l l'' where
  leading := h'.leading.trans h.leading
  kept hKept := by
    obtain rfl := h.kept hKept
    exact h'.kept hKept
  named hNamed := by
    obtain rfl := h'.named hNamed
    exact h.named hNamed

theorem spared_qualified (row : List Lexeme) :
    List.Forall₂ Spared row (qualify t none (normalize row)) := by
  have hNormal := spared_normalize row
  have hQualified := @spared_qualify t none (normalize row)
  generalize qualify t none (normalize row) = spelled at hQualified
  generalize normalize row = normal at hNormal hQualified
  induction hNormal generalizing spelled with
  | nil => exact hQualified
  | cons hFirst _ ih =>
    cases hQualified with
    | cons hNext hRest => exact .cons (hFirst.trans hNext) (ih _ hRest)

/-- What a conditional is converted to: its blocks are swapped for calls, of the other lexemes only
fields, quotes and operators are respelled, and the remarks are on branches and arms alone. -/
theorem attempt_conditional {formula dax : List Char} {form : Form} {facts : Facts}
    {remarks : List Remark}
    (h : attempt t formula = .converted (.conditional form) facts dax remarks) :
    (∃ room row spelled, Replaced (ConditionalSwap t room) (tokenize formula) row ∧
      List.Forall₂ Spared row spelled ∧ dax = render spelled) ∧
    ∀ r ∈ remarks, r.isOnBranches = true := by
  obtain ⟨-, -, hRun⟩ := run_of_attempt h
  constructor
  · obtain ⟨spliced, hSpliced, hText⟩ := Gives.of_bind ⟨[], remarks, hRun⟩
    refine ⟨_, spliced, _, @replaced_spliceConditionals t 63 _ _ hSpliced, spared_qualified spliced, gives_pure_iff.1 hText⟩
  · have hGathers : Gathers (·.isOnBranches = true)
        (daxText t (.conditional form) (tokenize formula)) fun _ => True :=
      (gathers_spliceConditionals maxNesting (tokenize formula)).bind fun _ _ => gathers_pure trivial
    exact (hGathers [] _ _ hRun (by simp)).2

end DaxMigration.Dax
