import DaxMigration.Dax.Splice
import DaxMigration.Proofs.Dax.Terms
import DaxMigration.Proofs.Formula.Flanks
import DaxMigration.Proofs.Formula.Fluent
import DaxMigration.Proofs.Formula.Grouping

/-!
# Texts that division keeps

What holds of the texts of all units, is kept by putting texts together and holds of the calls made
of such texts, holds of a divided row. Brackets need not be closed here: a bracket without a partner
is a unit like any other lexeme.
-/

namespace DaxMigration.Dax

open Formula Text

structure Keeps (E : List Char → Prop) : Prop where
  blank {w : List Char} (h : allBlank w = true) : E w
  append {a b : List Char} (ha : E a) (hb : E b) : E (a ++ b)
  trim {a : List Char} (h : E a) : E (trim a)
  divide {a b : List Char} (ha : E a) (hb : E b) : E (callText "DIVIDE" [a, b, ['0']])

/-- A unit with a text, which has the property unless it is a division sign. -/
structure Carries (E : List Char → Prop) (u : TermUnit) : Prop where
  blank : allBlank u.leading = true
  marks : inked u.text ≠ []
  text : u.isDivide = false → E u.written

/-- Two units one after the other. With `signs` a division sign may be left without one of its
operands. -/
structure Beside (signs : Bool) (E : List Char → Prop) (u v : TermUnit) : Prop where
  right : u.isDivide = true → v.kind = .operand ∨ signs = true ∧ v.kind = .boundary
  kept : signs = true → u.isDivide = true → E (u.written ++ v.written)
  left : signs = false → v.isDivide = true → u.kind = .operand

structure Stretch (signs : Bool) (E : List Char → Prop) (us : List TermUnit) : Prop where
  units : ∀ u ∈ us, Carries E u
  chain : us.IsChain (Beside signs E)
  last : ∀ u ∈ us.getLast?, u.isDivide = false

variable {signs : Bool} {E : List Char → Prop} {us vs : List TermUnit} {u : TermUnit}

theorem isDivide_of_kind {k : UnitKind} (h : u.kind = k) (hk : k ≠ .divide) : u.isDivide = false := by
  simp [TermUnit.isDivide, h, hk]

theorem isDivide_of_isOperator (h : u.isOperator = false) : u.isDivide = false := by
  simp_all [TermUnit.isOperator, TermUnit.isDivide]

theorem isDivide_of_isBoundary (h : u.isBoundary = true) : u.isDivide = false := by
  simp_all [TermUnit.isBoundary, TermUnit.isDivide]

theorem Carries.marks_written (h : Carries E u) : inked u.written ≠ [] := by
  rw [TermUnit.written, inked_append]
  exact fun hEmpty => h.marks (List.append_eq_nil_iff.1 hEmpty).2

theorem Stretch.right (h : Stretch signs E (us ++ u :: vs)) : Stretch signs E vs := by
  refine ⟨fun v hv => h.units v (List.mem_append_right _ (List.mem_cons_of_mem _ hv)),
    (List.isChain_append.1 h.chain).2.1.tail, fun v hv => h.last v ?_⟩
  rw [List.getLast?_append, List.getLast?_cons, Option.mem_def.1 hv]
  rfl

/-- Units in front of one that no operand begins with. -/
theorem Stretch.left (h : Stretch signs E (us ++ u :: vs))
    (hLast : ∀ v ∈ us.getLast?, v.isDivide = false) : Stretch signs E us :=
  ⟨fun v hv => h.units v (List.mem_append_left _ hv), (List.isChain_append.1 h.chain).1, hLast⟩

theorem exists_cut (p : TermUnit → Bool) (us : List TermUnit) :
    (∀ u ∈ us, p u = false) ∨
      ∃ before u after, us = before ++ u :: after ∧ (∀ v ∈ before, p v = false) ∧ p u = true := by
  induction us with
  | nil => simp
  | cons u us ih =>
    cases hu : p u with
    | true => exact .inr ⟨[], u, us, rfl, by simp, hu⟩
    | false =>
      rcases ih with hNone | ⟨before, v, after, rfl, hBefore, hv⟩
      · exact .inl (List.forall_mem_cons.2 ⟨hu, hNone⟩)
      · exact .inr ⟨u :: before, v, after, rfl, List.forall_mem_cons.2 ⟨hu, hBefore⟩, hv⟩

section

variable (hE : Keeps E)

include hE

theorem Keeps.join (h : ∀ u ∈ us, E u.written) : E (join us) := by
  induction us with
  | nil => exact hE.blank rfl
  | cons u us ih =>
    obtain ⟨hFirst, hRest⟩ := List.forall_mem_cons.1 h
    exact hE.append hFirst (ih hRest)

theorem Keeps.applyOperator {acc : List Char} (hAcc : E acc) (hUnit : Carries E u)
    (hFactor : ∀ v ∈ us, E v.written) (hFilled : u.isDivide = true → inked (Dax.join us) ≠ [])
    (hBare : acc = [] → u.isDivide = true → E (u.written ++ Dax.join us)) :
    E (applyOperator acc u us) ∧ inked (applyOperator acc u us) ≠ [] := by
  have hJoin := hE.join hFactor
  have hMarks := hUnit.marks_written
  unfold Dax.applyOperator
  extract_lets rhs
  split
  · rename_i hQuotient
    have hCall : "DIVIDE(".toList ++ acc ++ ", ".toList ++ Text.trim rhs ++ ", 0)".toList =
        callText "DIVIDE" [acc, Text.trim rhs, ['0']] := by
      simp [callText, commaSeparated, List.intercalate]
    have hMark : inked "DIVIDE(".toList ≠ [] := by decide
    refine ⟨hCall ▸ hE.divide hAcc (hE.trim hJoin), fun hEmpty => hMark ?_⟩
    simp only [inked_append, List.append_assoc] at hEmpty
    exact (List.append_eq_nil_iff.1 hEmpty).1
  · rename_i hKept
    constructor
    · cases hDivide : u.isDivide with
      | false =>
        exact hE.append (hE.append hAcc (hUnit.text hDivide)) hJoin
      | true =>
        have hRight : Text.trim rhs ≠ [] := by
          intro hEmpty
          have hNone := inked_trim (Dax.join us)
          rw [hEmpty] at hNone
          exact hFilled hDivide hNone.symm
        have hEmpty : acc = [] := by simpa [hDivide, hRight] using hKept
        rw [hEmpty, List.nil_append]
        exact hBare hEmpty hDivide
    · simp [inked_append, hMarks]

end

theorem marks_join (hFilled : us ≠ []) (h : ∀ u ∈ us, Carries E u) : inked (join us) ≠ [] := by
  cases us with
  | nil => exact absurd rfl hFilled
  | cons u us =>
    have hMarks := (h u List.mem_cons_self).marks_written
    simp [join, inked_append, hMarks]

/-- A division sign stands in front of no operator, so its right factor is not empty. -/
theorem Stretch.factor (h : Stretch signs E (u :: (us ++ vs)))
    (hNext : ∀ v ∈ vs.head?, v.isOperator = true) (hDivide : u.isDivide = true) :
    ∃ v rest, us = v :: rest ∧ Beside signs E u v := by
  cases us with
  | nil =>
    cases vs with
    | nil =>
      have hLast := h.last u rfl
      rw [hDivide] at hLast
      cases hLast
    | cons v vs =>
      have hOperator := hNext v rfl
      rcases (List.isChain_cons_cons.1 h.chain).1.right hDivide with hKind | ⟨-, hKind⟩ <;>
        simp [TermUnit.isOperator, hKind] at hOperator
  | cons v us => exact ⟨v, us, rfl, (List.isChain_cons_cons.1 h.chain).1⟩

theorem kind_of_isBoundary (h : u.isBoundary = true) : u.kind ≠ .operand := by
  intro hKind
  simp [TermUnit.isBoundary, hKind] at h

section

variable (hE : Keeps E)

include hE

/-- One operator with its right factor. -/
theorem Keeps.apply_factor {acc : List Char} (hAcc : E acc) (h : Stretch signs E (u :: (us ++ vs)))
    (hFactor : ∀ v ∈ us, v.isOperator = false) (hNext : ∀ v ∈ vs.head?, v.isOperator = true)
    (hBare : acc = [] → u.isDivide = true → signs = true) :
    E (Dax.applyOperator acc u us) ∧ inked (Dax.applyOperator acc u us) ≠ [] := by
  have hUnits : ∀ v ∈ us, Carries E v := fun v hv =>
    h.units v (List.mem_cons_of_mem _ (List.mem_append_left _ hv))
  have hTexts : ∀ v ∈ us, E v.written := fun v hv =>
    (hUnits v hv).text (isDivide_of_isOperator (hFactor v hv))
  refine hE.applyOperator hAcc (h.units u List.mem_cons_self) hTexts ?_ ?_
  · intro hDivide
    obtain ⟨v, rest, rfl, -⟩ := h.factor hNext hDivide
    exact marks_join (by simp) hUnits
  · intro hEmpty hDivide
    obtain ⟨v, rest, rfl, hBeside⟩ := h.factor hNext hDivide
    have hRest := hE.join (List.forall_mem_cons.1 hTexts).2
    have hBoth := hE.append (hBeside.kept (hBare hEmpty hDivide) hDivide) hRest
    simpa [Dax.join] using hBoth

/-- The operators of a term, one after the other. -/
theorem Keeps.foldFactors {acc : List Char} (hAcc : E acc) (h : Stretch signs E (u :: us))
    (hBare : acc = [] → u.isDivide = true → signs = true) :
    E (((u, (cutAt TermUnit.isOperator us).1) :: (cutAt TermUnit.isOperator us).2).foldl
        (fun acc q => Dax.applyOperator acc q.1 q.2) acc) ∧
      inked (((u, (cutAt TermUnit.isOperator us).1) :: (cutAt TermUnit.isOperator us).2).foldl
        (fun acc q => Dax.applyOperator acc q.1 q.2) acc) ≠ [] := by
  induction hLength : us.length using Nat.strongRecOn generalizing acc u us with
  | ind n ih =>
    subst hLength
    rcases exists_cut TermUnit.isOperator us with hNone | ⟨factor, v, rest, rfl, hFactor, hv⟩
    · rw [cutAt_of_none hNone, List.foldl_cons, List.foldl_nil]
      rw [← List.append_nil us] at h
      exact hE.apply_factor hAcc h hNone (by simp) hBare
    · rw [cutAt_append hv, cutAt_of_none hFactor, List.nil_append, List.foldl_cons]
      have hNext : ∀ w ∈ (v :: rest).head?, w.isOperator = true := by simpa using hv
      obtain ⟨hApplied, hMarks⟩ := hE.apply_factor hAcc h hFactor hNext hBare
      have hRest : Stretch signs E (v :: rest) := by
        refine ⟨fun w hw => h.units w (by simp [List.mem_cons.1 hw]), ?_, fun w hw => h.last w ?_⟩
        · exact (List.isChain_append.1 h.chain.tail).2.1
        · rw [← List.cons_append, List.getLast?_append, Option.mem_def.1 hw]
          rfl
      refine ih rest.length (by simp; omega) hApplied hRest (fun hEmpty => ?_) rfl
      rw [hEmpty] at hMarks
      exact absurd rfl hMarks

/-- The operators of a term one after the other, from its first operand on. -/
theorem Keeps.foldOperators (h : Stretch signs E us)
    (hFirst : signs = false → ∀ u ∈ us.head?, u.isDivide = false) :
    E (((cutAt TermUnit.isOperator us).1.head?.map TermUnit.leading).getD [] ++
        (cutAt TermUnit.isOperator us).2.foldl (fun acc q => Dax.applyOperator acc q.1 q.2)
          (Text.trim (Dax.join (cutAt TermUnit.isOperator us).1))) ∧
      (us ≠ [] → inked (((cutAt TermUnit.isOperator us).1.head?.map TermUnit.leading).getD [] ++
        (cutAt TermUnit.isOperator us).2.foldl (fun acc q => Dax.applyOperator acc q.1 q.2)
          (Text.trim (Dax.join (cutAt TermUnit.isOperator us).1))) ≠ []) := by
  have hLead : ∀ first : List TermUnit, (∀ u ∈ first, Carries E u) →
      E ((first.head?.map TermUnit.leading).getD []) := by
    intro first hUnits
    cases first with
    | nil => exact hE.blank rfl
    | cons u first => exact hE.blank (hUnits u List.mem_cons_self).blank
  rcases exists_cut TermUnit.isOperator us with hNone | ⟨first, v, rest, rfl, hOperands, hv⟩
  · rw [cutAt_of_none hNone, List.foldl_nil]
    have hJoin : E (Dax.join us) := hE.join fun u hu =>
      (h.units u hu).text (isDivide_of_isOperator (hNone u hu))
    refine ⟨hE.append (hLead us h.units) (hE.trim hJoin), fun hFilled => ?_⟩
    rw [inked_append, inked_trim]
    exact fun hEmpty => marks_join hFilled h.units (List.append_eq_nil_iff.1 hEmpty).2
  · rw [cutAt_append hv, cutAt_of_none hOperands, List.nil_append]
    have hUnits : ∀ u ∈ first, Carries E u := fun u hu => h.units u (List.mem_append_left _ hu)
    have hJoin : E (Dax.join first) := hE.join fun u hu =>
      (hUnits u hu).text (isDivide_of_isOperator (hOperands u hu))
    have hRest : Stretch signs E (v :: rest) := by
      refine ⟨fun w hw => h.units w (List.mem_append_right _ hw),
        (List.isChain_append.1 h.chain).2.1, fun w hw => h.last w ?_⟩
      rw [List.getLast?_append, Option.mem_def.1 hw]
      rfl
    have hBare : Text.trim (Dax.join first) = [] → v.isDivide = true → signs = true := by
      intro hEmpty hDivide
      by_contra hSigns
      have hNil : first = [] := by
        by_contra hFilled
        have hMarks := marks_join hFilled hUnits
        rw [← inked_trim, hEmpty] at hMarks
        exact hMarks rfl
      have hHead := hFirst (by simpa using hSigns) v (by rw [hNil]; rfl)
      rw [hDivide] at hHead
      cases hHead
    obtain ⟨hFold, hMarks⟩ := hE.foldFactors (hE.trim hJoin) hRest hBare
    refine ⟨hE.append (hLead first hUnits) hFold, fun _ => ?_⟩
    rw [inked_append]
    exact fun hEmpty => hMarks (List.append_eq_nil_iff.1 hEmpty).2

theorem Keeps.foldTerm (h : Stretch signs E us)
    (hFirst : signs = false → ∀ u ∈ us.head?, u.isDivide = false) :
    E (Dax.foldTerm us) ∧ (us ≠ [] → inked (Dax.foldTerm us) ≠ []) := by
  unfold Dax.foldTerm
  split
  · exact hE.foldOperators h hFirst
  · rename_i hNone
    have hDivide : ∀ u ∈ us, u.isDivide = false := by simpa using hNone
    exact ⟨hE.join fun u hu => (h.units u hu).text (hDivide u hu),
      fun hFilled => marks_join hFilled h.units⟩

/-- A term that ends with a division sign has the sign at its end. -/
theorem Keeps.foldTerm_snoc (h : Stretch signs E us)
    (hFirst : signs = false → ∀ u ∈ us.head?, u.isDivide = false) (hDivide : u.isDivide = true) :
    ∃ text, E text ∧ Dax.foldTerm (us ++ [u]) = text ++ u.written := by
  have hOperator : u.isOperator = true := by simp_all [TermUnit.isOperator, TermUnit.isDivide]
  refine ⟨_, (hE.foldOperators h hFirst).1, ?_⟩
  have hAny : (us ++ [u]).any TermUnit.isDivide = true := by simp [hDivide]
  rw [Dax.foldTerm, if_pos hAny, cutAt_append hOperator]
  simp [cutAt, Dax.applyOperator, Dax.join]

/-- The terms of a level, one after the other. -/
theorem Keeps.foldTerms (h : Stretch signs E us)
    (hFirst : signs = false → ∀ u ∈ us.head?, u.isDivide = false) :
    E (Dax.foldTerms us) ∧ (us ≠ [] → inked (Dax.foldTerms us) ≠ []) := by
  induction hLength : us.length using Nat.strongRecOn generalizing us with
  | ind n ih =>
    subst hLength
    rcases exists_cut TermUnit.isBoundary us with hNone | ⟨before, v, rest, rfl, hBefore, hv⟩
    · rw [foldTerms_of_none hNone]
      exact hE.foldTerm h hFirst
    · rw [foldTerms_append hv, foldTerms_of_none hBefore]
      have hRest := h.right
      have hUnit := h.units v (by simp)
      have hTermFirst : signs = false → ∀ u ∈ before.head?, u.isDivide = false := by
        intro hSigns u hu
        refine hFirst hSigns u ?_
        rw [List.head?_append, Option.mem_def.1 hu]
        rfl
      have hRestFirst : signs = false → ∀ u ∈ rest.head?, u.isDivide = false := by
        intro hSigns u hu
        refine Bool.eq_false_iff.2 fun hDivide => kind_of_isBoundary hv ?_
        have hChain := (List.isChain_append.1 h.chain).2.1
        exact ((List.isChain_cons.1 hChain).1 u hu).left hSigns hDivide
      have hOthers := (ih rest.length (by simp; omega) hRest hRestFirst rfl).1
      have hMarks := hUnit.marks_written
      refine ⟨?_, fun _ => by simp [inked_append, hMarks]⟩
      by_cases hTerm : ∀ w ∈ before.getLast?, w.isDivide = false
      · have hFirstTerm := (hE.foldTerm (h.left hTerm) hTermFirst).1
        exact hE.append hFirstTerm (hE.append (hUnit.text (isDivide_of_isBoundary hv)) hOthers)
      -- The sign in front of the boundary keeps no right operand, and is written with what follows.
      · obtain ⟨w, hw, hDivide⟩ : ∃ w ∈ before.getLast?, w.isDivide = true := by
          simpa using hTerm
        obtain ⟨kept, rfl⟩ := List.getLast?_eq_some_iff.1 hw
        have hWhole : Stretch signs E (kept ++ w :: (v :: rest)) := by simpa using h
        have hKept : Stretch signs E kept := by
          refine hWhole.left fun d hd => Bool.eq_false_iff.2 fun hSign => ?_
          have hBeside := (List.isChain_append.1 hWhole.chain).2.2 d hd w rfl
          rcases hBeside.right hSign with hKind | ⟨-, hKind⟩ <;>
            simp [TermUnit.isDivide, hKind] at hDivide
        have hBeside : Beside signs E w v :=
          (List.isChain_cons_cons.1 (List.isChain_append.1 hWhole.chain).2.1).1
        have hSigns : signs = true := by
          rcases hBeside.right hDivide with hKind | ⟨hSigns, -⟩
          · exact absurd hKind (kind_of_isBoundary hv)
          · exact hSigns
        obtain ⟨text, hText, hEq⟩ := hE.foldTerm_snoc hKept (by simp [hSigns]) hDivide
        have hAll := hE.append hText (hE.append (hBeside.kept hSigns hDivide) hOthers)
        rw [hEq]
        simpa using hAll

end

/-! ## Pieces -/

structure Bears (signs : Bool) (T : List Char → Prop) (l : Lexeme) : Prop where
  blank : allBlank l.leading = true
  marks : inked l.text ≠ []
  comment : l.isComment = false
  text : l.token ≠ .slash → T l.text
  kept : signs = true → l.token = .slash → ∀ b, T b → inked b ≠ [] → Parting b → T (l.text ++ b)
  parts : signs = true → l.token.isJoint signs = false → Parting l.text

structure Encloses (signs : Bool) (E T : List Char → Prop) (opening closing : Lexeme) : Prop where
  opens : opening.token.opens = true
  closes : closing.token.closes = true
  blank : allBlank opening.leading = true
  marks : inked opening.text ≠ []
  text : ∀ inner, E inner → T (opening.text ++ inner ++ closing.written)
  parts : signs = true → Parting opening.text

mutual

def PieceHas (signs : Bool) (E T : List Char → Prop) : Piece → Prop
  | .leaf l => Bears signs T l
  | .group opening inner closing => Encloses signs E T opening closing ∧ PiecesHave signs E E inner

def PiecesHave (signs : Bool) (E T : List Char → Prop) : List Piece → Prop
  | [] => True
  | p :: rest => PieceHas signs E T p ∧ PiecesHave signs E T rest

end

variable {T : List Char → Prop} {p q : Piece} {ps : List Piece}

theorem piecesHave_append {as bs : List Piece} :
    PiecesHave signs E T (as ++ bs) ↔ PiecesHave signs E T as ∧ PiecesHave signs E T bs := by
  induction as with
  | nil => simp [PiecesHave]
  | cons a as ih => simp [PiecesHave, ih, and_assoc]

theorem unitKind_eq_divide {k : Option UnitKind} {t : Token} (h : unitKind k t = .divide) :
    t = .slash := by
  cases hSign : isFactorSign t with
  | true =>
    rcases unitKind_of_isFactorSign hSign k with ⟨-, hSlash⟩ | ⟨hKind, -⟩
    · exact hSlash
    · rw [hKind] at h
      cases h
  | false => rcases unitKind_of_not_isFactorSign hSign k with hKind | hKind <;> rw [hKind] at h <;> cases h

theorem unitKind_of_endsFactor {k : Option UnitKind} {t : Token} (h : t.endsFactor false = true) :
    unitKind k t = .operand := by
  cases t <;> simp_all [unitKind, Token.endsFactor, Token.isWord, Token.isDivisionBoundary]

theorem unitKind_of_beginsFactor {t : Token} (h : t.beginsFactor signs = true) :
    unitKind (some .divide) t = .operand ∨
      signs = true ∧ unitKind (some .divide) t = .boundary := by
  cases t with
  | identifier name =>
    simp only [Token.beginsFactor, Bool.or_eq_true, Bool.not_eq_true', Bool.and_eq_true] at h
    simp only [unitKind]
    cases hNot : (Token.identifier name).isWord "NOT" with
    | true => simp
    | false =>
      cases hBoundary : (Token.identifier name).isDivisionBoundary with
      | false => simp
      | true => simp_all
  | _ => first | exact .inl rfl | cases h

theorem isDivide_unitOf {k : Option UnitKind} (h : (unitOf k p).isDivide = true) :
    ∃ l, p = .leaf l ∧ l.token = .slash := by
  cases p with
  | leaf l => exact ⟨l, rfl, unitKind_eq_divide (by simpa [unitOf, TermUnit.isDivide] using h)⟩
  | group => simp [unitOf, TermUnit.isDivide] at h

/-- A piece whose last lexeme ends a factor is an operand. -/
theorem kind_of_endsFactor {k : Option UnitKind}
    (h : ∀ l ∈ p.flatten.getLast?, l.token.endsFactor false = true) : (unitOf k p).kind = .operand := by
  cases p with
  | leaf l => exact unitKind_of_endsFactor (h l rfl)
  | group => rfl

theorem kind_of_beginsFactor
    (h : ∀ l ∈ p.flatten.head?, l.token.beginsFactor signs = true) :
    (unitOf (some .divide) p).kind = .operand ∨
      signs = true ∧ (unitOf (some .divide) p).kind = .boundary := by
  cases p with
  | leaf l => exact unitKind_of_beginsFactor (h l rfl)
  | group => exact .inl rfl

theorem parting_unitOf {k : Option UnitKind} (hSigns : signs = true) (h : PieceHas signs E T p)
    (hFirst : ∀ l ∈ p.flatten.head?, l.token.isJoint signs = false) :
    Parting (unitOf k p).written := by
  cases p with
  | leaf l => exact (h.parts hSigns (hFirst l rfl)).indent h.blank
  | group opening inner closing =>
    obtain ⟨hBrackets, -⟩ := h
    have hText := ((hBrackets.parts hSigns).append hBrackets.marks
      (foldTerms (units none inner) ++ closing.written)).indent hBrackets.blank
    simpa [unitOf, TermUnit.written] using hText

/-- Two pieces one after the other, where a lexeme of the first meets one of the second. -/
theorem beside_of_meets (hT : Keeps T) {k : Option UnitKind} (hp : PieceHas signs E T p)
    (hq : PieceHas signs E T q) (hCarries : Carries T (unitOf (kindAfter k p) q))
    (h : ∀ l ∈ p.flatten.getLast?, ∀ m ∈ q.flatten.head?, Meets signs l m) :
    Beside signs T (unitOf k p) (unitOf (kindAfter k p) q) := by
  have hBegins : ∀ l, p = .leaf l → l.token = .slash →
      ∀ m ∈ q.flatten.head?, m.token.beginsFactor signs = true := by
    rintro l rfl hSlash m hm
    exact (h l rfl m hm).right (by rw [hSlash]; rfl)
  have hOperand : ∀ l, p = .leaf l → l.token = .slash →
      (unitOf (kindAfter k p) q).kind = .operand ∨
        signs = true ∧ (unitOf (kindAfter k p) q).kind = .boundary := by
    rintro l rfl hSlash
    have hKind : kindAfter k (.leaf l) = some .divide := by
      simp [kindAfter, Lexeme.isComment, hSlash, Token.isComment, unitKind]
    rw [hKind]
    exact kind_of_beginsFactor (hBegins l rfl hSlash)
  refine ⟨fun hDivide => ?_, fun hSigns hDivide => ?_, fun hSigns hDivide => ?_⟩
  · obtain ⟨l, rfl, hSlash⟩ := isDivide_unitOf hDivide
    exact hOperand l rfl hSlash
  · obtain ⟨l, rfl, hSlash⟩ := isDivide_unitOf hDivide
    have hText := hCarries.text (by
      rcases hOperand l rfl hSlash with hKind | ⟨-, hKind⟩ <;> exact isDivide_of_kind hKind (by decide))
    have hParts := parting_unitOf (k := kindAfter k (.leaf l)) hSigns hq fun m hm =>
      Token.isJoint_of_beginsFactor (hBegins l rfl hSlash m hm)
    have hBoth := hT.append (hT.blank hp.blank)
      (hp.kept hSigns hSlash _ hText hCarries.marks_written hParts)
    simpa [unitOf, TermUnit.written] using hBoth
  · obtain ⟨l, rfl, hSlash⟩ := isDivide_unitOf hDivide
    refine kind_of_endsFactor fun m hm => ?_
    have hLeft := (h m hm l rfl).left (by rw [hSlash]; rfl)
    rwa [hSigns] at hLeft

/-- A division sign does not stand first where no operator does. -/
theorem first_units {k : Option UnitKind}
    (h : ∀ l ∈ (Piece.flattenAll ps).head?, l.token.isJoint signs = false) :
    ∀ u ∈ (units k ps).head?, u.isDivide = false := by
  cases ps with
  | nil => simp [units]
  | cons p ps =>
    intro u hu
    obtain rfl : unitOf k p = u := by simpa [units] using hu
    refine Bool.eq_false_iff.2 fun hDivide => ?_
    obtain ⟨l, rfl, hSlash⟩ := isDivide_unitOf hDivide
    have hJoint := h l rfl
    rw [hSlash] at hJoint
    cases hJoint

mutual

theorem carries_unitOf {signs : Bool} {E T : List Char → Prop} (hE : Keeps E) (hT : Keeps T)
    (p : Piece) (h : PieceHas signs E T p) (hChain : p.flatten.IsChain (Meets signs))
    (k : Option UnitKind) : Carries T (unitOf k p) := by
  cases p with
  | leaf l =>
    refine ⟨h.blank, h.marks, fun hDivide => hT.append (hT.blank h.blank) (h.text ?_)⟩
    intro hSlash
    simp [unitOf, TermUnit.isDivide, hSlash, unitKind] at hDivide
  | group opening inner closing =>
    obtain ⟨hBrackets, hInner⟩ := h
    have hFlanked := flanked_of_enclosed hChain (Token.endsFactor_of_opens hBrackets.opens)
      (Token.beginsFactor_of_closes hBrackets.closes)
    have hStretch := stretch_units hE hE inner hInner hFlanked.chain hFlanked.last none
    have hText := (hE.foldTerms hStretch fun _ => first_units hFlanked.first).1
    refine ⟨hBrackets.blank, ?_, fun _ => ?_⟩
    · have hMarks := hBrackets.marks
      simp [unitOf, inked_append, hMarks]
    · exact hT.append (hT.blank hBrackets.blank) (hBrackets.text _ hText)

theorem stretch_units {signs : Bool} {E T : List Char → Prop} (hE : Keeps E) (hT : Keeps T)
    (ps : List Piece) (h : PiecesHave signs E T ps)
    (hChain : (Piece.flattenAll ps).IsChain (Meets signs))
    (hLast : ∀ l ∈ (Piece.flattenAll ps).getLast?, l.token.isJoint signs = false)
    (k : Option UnitKind) : Stretch signs T (units k ps) := by
  cases ps with
  | nil => exact ⟨by simp [units], by simp [units], by simp [units]⟩
  | cons p rest =>
    obtain ⟨hFirst, hRest⟩ := h
    obtain ⟨hLeft, hRight, hAt⟩ := List.isChain_append.1 hChain
    have hCarries := carries_unitOf hE hT p hFirst hLeft k
    cases rest with
    | nil =>
      refine ⟨by simpa [units] using hCarries, by simp [units], fun u hu => ?_⟩
      obtain rfl : unitOf k p = u := by simpa [units] using hu
      refine Bool.eq_false_iff.2 fun hDivide => ?_
      obtain ⟨l, rfl, hSlash⟩ := isDivide_unitOf hDivide
      have hJoint := hLast l rfl
      rw [hSlash] at hJoint
      cases hJoint
    | cons q rest =>
      have hOthers := stretch_units hE hT (q :: rest) hRest hRight (fun l hl => hLast l (by
        rw [Piece.flattenAll, List.getLast?_append, Option.mem_def.1 hl]
        rfl)) (kindAfter k p)
      have hSecond := hOthers.units _ List.mem_cons_self
      have hBeside := beside_of_meets (k := k) hT hFirst hRest.1 hSecond fun l hl m hm =>
        hAt l hl m (by rw [Piece.flattenAll, List.head?_append, Option.mem_def.1 hm]; rfl)
      refine ⟨List.forall_mem_cons.2 ⟨hCarries, hOthers.units⟩, .cons_cons hBeside hOthers.chain,
        fun u hu => hOthers.last u ?_⟩
      rwa [units, units, List.getLast?_cons_cons] at hu

end

/-! ## Groups of a row -/

/-- Lexemes that have `P` are brackets around what has `E`, and other leaves; outside of all brackets
leaves other than commas have `T`. -/
structure Grouped (signs : Bool) (E T : List Char → Prop) (P : Lexeme → Prop) : Prop where
  brackets {opening closing : Lexeme} (hOpening : P opening) (hClosing : P closing)
    (hOpens : opening.token.opens = true) (hCloses : closing.token.closes = true) :
    Encloses signs E T opening closing
  inner {l : Lexeme} (h : P l) (hOpens : l.token.opens = false) (hCloses : l.token.closes = false) :
    Bears signs E l
  outer {l : Lexeme} (h : P l) (hOpens : l.token.opens = false) (hCloses : l.token.closes = false)
    (hComma : l.token ≠ .comma) : Bears signs T l
  weaken {text : List Char} (h : T text) : E text

def within {α : Type} (E T : List Char → Prop) (frames : List α) : List Char → Prop :=
  if frames.isEmpty then T else E

def FramesHave (signs : Bool) (E T : List Char → Prop) (P : Lexeme → Prop) :
    List (Lexeme × List Piece) → Prop
  | [] => True
  | (opening, before) :: below =>
    P opening ∧ opening.token.opens = true ∧ PiecesHave signs E (within E T below) before ∧
      FramesHave signs E T P below

structure GroupingHas (signs : Bool) (E T : List Char → Prop) (P : Lexeme → Prop) (g : Grouping) :
    Prop where
  frames : FramesHave signs E T P g.frames
  current : PiecesHave signs E (within E T g.frames) g.current

variable {P : Lexeme → Prop} {g : Grouping} {l : Lexeme} {ls : List Lexeme}

theorem GroupingHas.leaf (h : GroupingHas signs E T P g)
    (hl : Bears signs (within E T g.frames) l) :
    GroupingHas signs E T P ⟨g.frames, g.current ++ [.leaf l]⟩ :=
  ⟨h.frames, piecesHave_append.2 ⟨h.current, hl, trivial⟩⟩

theorem Encloses.within {opening closing : Lexeme} (hWeaken : ∀ text, T text → E text)
    (h : Encloses signs E T opening closing) {α : Type} (frames : List α) :
    Encloses signs E (within E T frames) opening closing := by
  refine ⟨h.opens, h.closes, h.blank, h.marks, fun inner hInner => ?_, h.parts⟩
  unfold Dax.within
  split
  · exact h.text inner hInner
  · exact hWeaken _ (h.text inner hInner)

theorem GroupingHas.step (hP : Grouped signs E T P) (h : GroupingHas signs E T P g) (hl : P l)
    (hStray : l.token.closes = true → g.frames = [] → Bears signs T l)
    (hComma : l.token = .comma → g.frames = [] → Bears signs T l) :
    GroupingHas signs E T P (g.step l) := by
  obtain ⟨frames, current⟩ := g
  rw [Grouping.step]
  cases hOpens : l.token.opens with
  | true => exact ⟨⟨hl, hOpens, h.current, h.frames⟩, trivial⟩
  | false =>
    cases hCloses : l.token.closes with
    | false =>
      refine h.leaf ?_
      cases frames with
      | nil =>
        by_cases hSeparates : l.token = .comma
        · exact hComma hSeparates rfl
        · exact hP.outer hl hOpens hCloses hSeparates
      | cons frame frames => exact hP.inner hl hOpens hCloses
    | true =>
      cases frames with
      | nil => exact h.leaf (hStray hCloses rfl)
      | cons frame frames =>
        obtain ⟨opening, before⟩ := frame
        obtain ⟨hOpening, hOpen, hBefore, hBelow⟩ := h.frames
        have hBrackets := hP.brackets hOpening hl hOpen hCloses
        exact ⟨hBelow, piecesHave_append.2
          ⟨hBefore, ⟨hBrackets.within (fun _ => hP.weaken) frames, h.current⟩, trivial⟩⟩

theorem separators_frames_step {ts : List Token}
    (h : separators (· == .comma) g.frames.length (l.token :: ts) = 0) :
    separators (· == .comma) (g.step l).frames.length ts = 0 ∧
      (l.token = .comma → g.frames ≠ []) := by
  obtain ⟨frames, current⟩ := g
  rw [Grouping.step]
  rw [separators] at h
  cases hOpens : l.token.opens with
  | true =>
    refine ⟨by simpa [hOpens] using h, fun hComma => ?_⟩
    rw [hComma] at hOpens
    cases hOpens
  | false =>
    cases hCloses : l.token.closes with
    | true =>
      refine ⟨?_, fun hComma => ?_⟩
      · cases frames <;> simpa [hOpens, hCloses] using h
      · rw [hComma] at hCloses
        cases hCloses
    | false =>
      simp only [hOpens, hCloses, Bool.false_eq_true, if_false] at h ⊢
      split at h
      · cases h
      · rename_i hNone
        refine ⟨h, fun hComma hFrames => hNone ?_⟩
        simp [hFrames, hComma]

/-- Every lexeme may stand outside of all brackets; or the rest of the row closes what is open, and
has a comma outside of all brackets only if one may stand there. -/
def Allowed (signs : Bool) (E T : List Char → Prop) (P : Lexeme → Prop) (depth : Nat)
    (ts : List Token) : Prop :=
  (E = T ∧ ∀ l, P l → Bears signs T l) ∨
    level depth ts = some 0 ∧ ((∀ l, P l → l.token = .comma → Bears signs T l) ∨
      separators (· == .comma) depth ts = 0)

theorem GroupingHas.run (hP : Grouped signs E T P) (h : GroupingHas signs E T P g)
    (hAll : ∀ l ∈ ls, P l)
    (hAllowed : Allowed signs E T P g.frames.length (ls.map Lexeme.token)) :
    GroupingHas signs E T P (ls.foldl Grouping.step g) ∧
      Allowed signs E T P (ls.foldl Grouping.step g).frames.length [] := by
  induction ls generalizing g with
  | nil => exact ⟨h, hAllowed⟩
  | cons l ls ih =>
    obtain ⟨hl, hRest⟩ := List.forall_mem_cons.1 hAll
    rcases hAllowed with ⟨hSame, hBears⟩ | ⟨hLevel, hComma⟩
    · exact ih (h.step hP hl (fun _ _ => hBears l hl) fun _ _ => hBears l hl) hRest
        (.inl ⟨hSame, hBears⟩)
    · obtain ⟨hNext, hOpen⟩ := Grouping.length_frames_step hLevel
      have hStray : l.token.closes = true → g.frames = [] → Bears signs T l :=
        fun hCloses hNone => absurd hNone (hOpen hCloses)
      rcases hComma with hBears | hNone
      · exact ih (h.step hP hl hStray fun hSame _ => hBears l hl hSame) hRest
          (.inr ⟨hNext, .inl hBears⟩)
      · obtain ⟨hUnparted, hInside⟩ := separators_frames_step hNone
        exact ih (h.step hP hl hStray fun hSame hEnd => absurd hEnd (hInside hSame)) hRest
          (.inr ⟨hNext, .inr hUnparted⟩)

theorem piecesHave_finish {frames : List (Lexeme × List Piece)} {current : List Piece}
    (h : GroupingHas signs E E P ⟨frames, current⟩) (hBears : ∀ l, P l → Bears signs E l) :
    PiecesHave signs E E (Grouping.finish frames current) := by
  have hSame : ∀ below : List (Lexeme × List Piece), Dax.within E E below = E := by
    simp [Dax.within]
  induction frames generalizing current with
  | nil =>
    rw [Grouping.finish]
    simpa [hSame] using h.current
  | cons frame frames ih =>
    obtain ⟨opening, before⟩ := frame
    obtain ⟨⟨hOpening, -, hBefore, hBelow⟩, hCurrent⟩ := h
    rw [hSame] at hBefore hCurrent
    refine ih ⟨hBelow, ?_⟩
    rw [hSame]
    exact piecesHave_append.2 ⟨hBefore, hBears _ hOpening, hCurrent⟩

/-- The pieces of a row without a bracket or comma that may not stand outside of all brackets. -/
theorem piecesHave_group (hP : Grouped signs E T P) (hAll : ∀ l ∈ ls, P l)
    (h : Allowed signs E T P 0 (ls.map Lexeme.token)) : PiecesHave signs E T (group ls) := by
  obtain ⟨hEnd, hOpen⟩ := GroupingHas.run (g := .start) hP ⟨trivial, trivial⟩ hAll h
  rcases hOpen with ⟨rfl, hBears⟩ | ⟨hClosed, -⟩
  · exact piecesHave_finish hEnd hBears
  · have hNone : (ls.foldl Grouping.step .start).frames = [] :=
      List.length_eq_zero_iff.1 (Option.some.inj hClosed)
    have hCurrent := hEnd.current
    rw [hNone] at hCurrent
    rw [group, Grouping.finished, hNone]
    exact hCurrent

/-- A divided row has what its pieces have. -/
theorem convertDivision_keeps {E T : List Char → Prop} (hE : Keeps E) (hT : Keeps T)
    {ls : List Lexeme} (h : PiecesHave signs E T (group ls)) (hFlanked : Flanked signs ls) :
    T (convertDivision ls) ∧ (ls ≠ [] → inked (convertDivision ls) ≠ []) := by
  rw [← flatten_group ls] at hFlanked
  have hStretch := stretch_units hE hT (group ls) h hFlanked.chain hFlanked.last none
  obtain ⟨hText, hMarks⟩ := hT.foldTerms hStretch fun _ => first_units hFlanked.first
  refine ⟨hText, fun hFilled => hMarks fun hEmpty => hFilled ?_⟩
  have hPieces : group ls = [] := by
    cases hGroup : group ls with
    | nil => rfl
    | cons p ps =>
      rw [hGroup, units] at hEmpty
      cases hEmpty
  rw [← flatten_group ls, hPieces]
  rfl

/-! ## First marks -/

theorem parting_applyOperator {acc : List Char} (hAcc : Parting acc) (hMarks : inked acc ≠ []) :
    Parting (applyOperator acc u us) ∧ inked (applyOperator acc u us) ≠ [] := by
  have hCall : Parting "DIVIDE(".toList ∧ inked "DIVIDE(".toList ≠ [] := by
    unfold Parting
    decide
  unfold applyOperator
  extract_lets rhs
  split
  · simp only [List.append_assoc, inked_append]
    refine ⟨hCall.1.append hCall.2 _, fun hEmpty => hCall.2 ?_⟩
    exact (List.append_eq_nil_iff.1 hEmpty).1
  · simp only [List.append_assoc, inked_append]
    exact ⟨hAcc.append hMarks _, fun hEmpty => hMarks (List.append_eq_nil_iff.1 hEmpty).1⟩

theorem parting_foldl {acc : List Char} (hAcc : Parting acc) (hMarks : inked acc ≠ [])
    (factors : List (TermUnit × List TermUnit)) :
    Parting (factors.foldl (fun acc q => applyOperator acc q.1 q.2) acc) ∧
      inked (factors.foldl (fun acc q => applyOperator acc q.1 q.2) acc) ≠ [] := by
  induction factors generalizing acc with
  | nil => exact ⟨hAcc, hMarks⟩
  | cons q factors ih =>
    obtain ⟨hNext, hMore⟩ := @parting_applyOperator q.2 q.1 acc hAcc hMarks
    exact ih hNext hMore

theorem parting_join (h : Parting u.written) (hMarks : inked u.written ≠ []) (us : List TermUnit) :
    Parting (join (u :: us)) ∧ inked (join (u :: us)) ≠ [] := by
  refine ⟨h.append hMarks (join us), fun hEmpty => hMarks ?_⟩
  rw [join, List.flatMap_cons, inked_append] at hEmpty
  exact (List.append_eq_nil_iff.1 hEmpty).1

theorem cutAt_of_pos {p : TermUnit → Bool} (h : p u = true) (us : List TermUnit) :
    cutAt p (u :: us) = ([], (u, (cutAt p us).1) :: (cutAt p us).2) := by
  simp [cutAt, h]

theorem cutAt_of_neg {p : TermUnit → Bool} (h : p u = false) (us : List TermUnit) :
    cutAt p (u :: us) = (u :: (cutAt p us).1, (cutAt p us).2) := by
  simp [cutAt, h]

theorem parting_foldTerm (hBlank : allBlank u.leading = true) (h : Parting u.written)
    (hMarks : inked u.written ≠ []) (us : List TermUnit) :
    Parting (foldTerm (u :: us)) ∧ inked (foldTerm (u :: us)) ≠ [] := by
  unfold foldTerm
  split
  · obtain ⟨hFirst, hMore⟩ := parting_join h hMarks (cutAt TermUnit.isOperator us).1
    cases hOperator : u.isOperator with
    | true =>
      have hStart : applyOperator [] u (cutAt TermUnit.isOperator us).1 =
          join (u :: (cutAt TermUnit.isOperator us).1) := by
        simp [applyOperator, join]
      rw [← hStart] at hFirst hMore
      rw [cutAt_of_pos hOperator]
      exact parting_foldl hFirst hMore (cutAt TermUnit.isOperator us).2
    | false =>
      rw [← inked_trim] at hMore
      obtain ⟨hFold, hFilled⟩ := parting_foldl hFirst.trim hMore (cutAt TermUnit.isOperator us).2
      rw [cutAt_of_neg hOperator]
      refine ⟨hFold.indent hBlank, fun hEmpty => hFilled ?_⟩
      simp only [inked_append] at hEmpty
      exact (List.append_eq_nil_iff.1 hEmpty).2
  · exact parting_join h hMarks us

/-- A level begins with the first mark of its first unit, or with the name of a call. -/
theorem parting_foldTerms (hBlank : allBlank u.leading = true) (h : Parting u.written)
    (hMarks : inked u.written ≠ []) (us : List TermUnit) : Parting (foldTerms (u :: us)) := by
  unfold foldTerms
  cases hBoundary : u.isBoundary with
  | true =>
    rw [cutAt_of_pos hBoundary]
    have hEmpty : foldTerm [] = [] := rfl
    simp only [hEmpty, List.nil_append, List.flatMap_cons, List.append_assoc]
    exact h.append hMarks _
  | false =>
    rw [cutAt_of_neg hBoundary]
    obtain ⟨hTerm, hFilled⟩ := parting_foldTerm hBlank h hMarks (cutAt TermUnit.isBoundary us).1
    exact hTerm.append hFilled _

theorem parting_convertDivision {E T : List Char → Prop} (hE : Keeps E) (hT : Keeps T)
    {ls : List Lexeme} (hSigns : signs = true) (h : PiecesHave signs E T (group ls))
    (hFlanked : Flanked signs ls) : Parting (convertDivision ls) := by
  have hFirst := hFlanked.first
  have hChain := hFlanked.chain
  rw [convertDivision]
  rw [← flatten_group ls] at hFirst hChain
  cases hGroup : group ls with
  | nil => simp [units, foldTerms, cutAt, foldTerm, join, Parting, inked]
  | cons p ps =>
    rw [hGroup] at h hFirst hChain
    have hCarries := carries_unitOf hE hT p h.1 (List.isChain_append.1 hChain).1 none
    refine parting_foldTerms hCarries.blank ?_ hCarries.marks_written _
    refine parting_unitOf hSigns h.1 fun l hl => hFirst l ?_
    rw [Piece.flattenAll, List.head?_append, Option.mem_def.1 hl]
    rfl

end DaxMigration.Dax
