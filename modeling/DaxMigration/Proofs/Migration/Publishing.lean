import DaxMigration.Migration.Measures
import DaxMigration.Proofs.Formula.Reading
import DaxMigration.Proofs.Migration.Batch
import Mathlib.Data.List.Forall2

/-!
# The name of a measure

A conversion keeps the name of its field and not the field, and the field is looked up again by that
name for the measures file. So each measure stands under its own field's name exactly where fields
that are looked up alike are displayed alike, and where a name has no closing bracket, which would
end the reference on the line of the definition.
-/

namespace DaxMigration

open Dax (Conversion)
open Formula (Lexeme Token tokenize)

/-! ## A name in brackets -/

namespace Formula

section Content

variable {q c d : Char}

theorem content_readLiteral_other (h : c ≠ q) (cs : List Char) :
    (readLiteral q (c :: cs)).content = c :: (readLiteral q cs).content := by
  cases cs <;> simp [readLiteral, h]

theorem content_readLiteral_twice (q : Char) (cs : List Char) :
    (readLiteral q (q :: q :: cs)).content = q :: (readLiteral q cs).content := by
  simp [readLiteral]

theorem content_readLiteral_close (h : c ≠ q) (cs : List Char) :
    (readLiteral q (q :: c :: cs)).content = [] := by
  simp [readLiteral, h]

-- A mark that was read twice is missing from the content for good, so the induction is on texts
-- that lack some marks already.
theorem content_readLiteral_ne (h : d ≠ q) (rest : List Char) : ∀ (s : List Char) (k : Nat),
    (readLiteral q (s ++ q :: d :: rest)).content ≠ List.replicate (k + 1) q ++ s
  | [], k => by simp [content_readLiteral_close h, List.replicate_succ]
  | [c], k => by
    by_cases hMark : c = q
    · cases k <;> simp [hMark, content_readLiteral_twice, content_readLiteral_other h,
        List.replicate_succ, h]
    · simp [content_readLiteral_other hMark, List.replicate_succ, hMark]
  | c :: c' :: s, k => by
    by_cases hMark : c = q
    · by_cases hTwice : c' = q
      · have hMarks : List.replicate (k + 1) q ++ q :: q :: s =
            q :: (List.replicate (k + 1 + 1) q ++ s) := by
          rw [← List.cons_append, ← List.replicate_succ,
            ← List.replicate_append_replicate (m := 2)]
          simp [List.replicate_succ]
        have ih := content_readLiteral_ne h rest s (k + 1)
        simpa [hMark, hTwice, content_readLiteral_twice, hMarks] using ih
      · simp [hMark, content_readLiteral_close hTwice, List.replicate_succ]
    · simp [content_readLiteral_other hMark, List.replicate_succ, hMark]

/-- A text is read back from between its marks exactly where it has no closing mark. -/
theorem content_readLiteral_eq_iff (h : d ≠ q) (rest : List Char) : ∀ s : List Char,
    (readLiteral q (s ++ q :: d :: rest)).content = s ↔ q ∉ s
  | [] => by simp [content_readLiteral_close h]
  | [c] => by
    by_cases hMark : c = q
    · simp [hMark, content_readLiteral_twice, content_readLiteral_other h]
    · simp [content_readLiteral_other hMark, content_readLiteral_close h, Ne.symm hMark]
  | c :: c' :: s => by
    by_cases hMark : c = q
    · by_cases hTwice : c' = q
      · have hMore := content_readLiteral_ne h rest s 0
        simpa [hMark, hTwice, content_readLiteral_twice] using hMore
      · simp [hMark, content_readLiteral_close hTwice]
    · have ih := content_readLiteral_eq_iff h rest (c' :: s)
      rw [List.cons_append, content_readLiteral_other hMark, List.cons.injEq, ih]
      simp [Ne.symm hMark]

end Content

def Defines (text name : List Char) : Prop :=
  [.field name, .equals] <+: (tokenize text).map Lexeme.token

theorem defines_iff (name tail : List Char) :
    Defines ('[' :: name ++ "] = ".toList ++ tail) name ↔ ']' ∉ name := by
  have hRead := content_readLiteral_eq_iff (q := ']') (d := ' ') (by decide)
    ('=' :: ' ' :: tail) name
  have hText : '[' :: name ++ "] = ".toList ++ tail =
      '[' :: (name ++ ']' :: ' ' :: '=' :: ' ' :: tail) := by simp
  rw [Defines, hText, tokenize_of_cons (List.dropWhile_cons_of_neg (by decide)), List.map_cons,
    List.cons_prefix_cons, ← hRead]
  constructor
  · intro ⟨hToken, _⟩
    exact (Token.field.inj hToken).symm
  · intro hContent
    have hAfter : ∀ d ∈ (' ' :: '=' :: ' ' :: tail).head?, d ≠ ']' := by simp
    have hClosed := Scan.readLiteral_closed hAfter name
    rw [Text.double_of_not_mem (hRead.1 hContent)] at hClosed
    have hEquals : tokenize (' ' :: '=' :: ' ' :: tail) =
        ⟨.equals, ['='], [' ']⟩ :: tokenize (' ' :: tail) :=
      tokenize_of_cons ((List.dropWhile_cons_of_pos (by decide)).trans
        (List.dropWhile_cons_of_neg (by decide)))
    refine ⟨congrArg Token.field hContent.symm, ?_⟩
    have hRest : (Scan.scan '[' (name ++ ']' :: ' ' :: '=' :: ' ' :: tail)).rest =
      ' ' :: '=' :: ' ' :: tail := congrArg (·.rest) hClosed
    rw [hRest, hEquals]
    exact List.prefix_append _ _

end Formula

namespace Migration

open Workbook (CalculatedField)

/-! ## Blocks -/

def commentTexts (name : String) (c : Conversion) : List String :=
  [name ++ " (" ++ c.fieldRole ++ ")", "Original Tableau: " ++ unbroken c.source] ++
    (c.notes.map ("Note: " ++ ·)) ++
    if c.success then []
    else ["CONVERSION FAILED - Manual review required",
        "Issues: " ++ ", ".intercalate c.issues] ++
      if c.dax = "" then [] else ["Candidate: " ++ c.dax]

def definition (name : String) (c : Conversion) : String :=
  "[" ++ name ++ "] = " ++ if c.success then c.dax else ""

theorem measureBlock_eq (name : String) (c : Conversion) :
    measureBlock name c = (commentTexts name c).map comment ++ [definition name c, ""] := by
  have hNotes : (c.notes.map ("Note: " ++ ·)).map comment =
      c.notes.map fun note => comment ("Note: " ++ note) :=
    List.map_map
  unfold measureBlock commentTexts definition
  rw [List.map_append, List.map_append, hNotes]
  cases c.success with
  | true => simp
  | false => by_cases hDax : c.dax = "" <;> simp [hDax]

namespace ConvertedWorkbook

def blocks (c : ConvertedWorkbook) : List (List String) :=
  c.conversions.map fun conversion => measureBlock (c.measureName conversion) conversion

theorem measuresText_eq (c : ConvertedWorkbook) :
    measuresText c = Text.ended (measuresHeading c ++ c.blocks.flatten) := rfl

end ConvertedWorkbook

/-- The block is headed by the name, and its last line but one defines it. -/
def Publishes (block : List String) (name role : String) : Prop :=
  block.head? = some (comment (name ++ " (" ++ role ++ ")")) ∧
    ∃ lines line, block = lines ++ [line, ""] ∧ Formula.Defines line.toList name.toList

theorem publishes_iff {name own : String} {c : Conversion} :
    Publishes (measureBlock name c) own c.fieldRole ↔ name = own ∧ ']' ∉ own.toList := by
  have hHead : (measureBlock name c).head? = some (comment (own ++ " (" ++ c.fieldRole ++ ")")) ↔
      name = own := by
    rw [measureBlock_eq]
    simp [commentTexts, comment]
  have hDefines : Formula.Defines (definition own c).toList own.toList ↔ ']' ∉ own.toList := by
    rw [← Formula.defines_iff own.toList (if c.success then c.dax else "").toList]
    simp [definition]
  rw [Publishes, hHead]
  refine and_congr_right fun hName => ?_
  rw [hName, measureBlock_eq, ← hDefines]
  constructor
  · rintro ⟨lines, line, hBlock, hLine⟩
    obtain ⟨_, hEnd⟩ := List.append_inj' hBlock rfl
    rw [(List.cons.inj hEnd).1]
    exact hLine
  · intro hLine
    exact ⟨_, _, rfl, hLine⟩

/-! ## Fields that are looked up -/

/-- The name that the field of a conversion is looked up by. -/
def sought (f : CalculatedField) : String :=
  Formulas.orDefault Formulas.defaultName f.name

theorem sought_ne (f : CalculatedField) : sought f ≠ "" := by
  unfold sought Formulas.orDefault
  split
  · decide
  · assumption

theorem sought_of_ne {f : CalculatedField} (h : f.name ≠ "") : sought f = f.name :=
  if_neg h

/-- Fields that are looked up alike are displayed alike, and one without a name is displayed as what
stands in for it. -/
structure NamesAgree (fields : List CalculatedField) : Prop where
  alike : ∀ f ∈ fields, ∀ g ∈ fields, sought f = sought g → f.displayName = g.displayName
  nameless : ∀ f ∈ fields, f.name = "" →
    f.displayName = Formulas.defaultName ∨ ∃ g ∈ fields, g.name = Formulas.defaultName

section

variable (t : Dax.Target) (w : Workbook)

theorem fieldName_alone (f : CalculatedField) : (Formulas.alone t f).1.fieldName = sought f := by
  rw [Formulas.conversion_alone]
  cases Dax.attempt t f.effectiveFormula.toList <;> rfl

theorem fieldRole_alone (f : CalculatedField) :
    (Formulas.alone t f).1.fieldRole = Formulas.orDefault Formulas.defaultRole f.role := by
  rw [Formulas.conversion_alone]
  cases Dax.attempt t f.effectiveFormula.toList <;> rfl

theorem measureName_alone (f : CalculatedField) :
    (Formulas.allAlone t w).measureName (Formulas.alone t f).1 =
      match w.calculatedFields.find? (·.name = sought f) with
      | some g => g.displayName
      | none => Workbook.plainName (sought f) := by
  rw [← fieldName_alone t f]
  rfl

/-- A field of the workbook goes by the name of the first field that is looked up alike, and only
one without a name can find none. -/
theorem measureName_of_mem {f : CalculatedField} (hf : f ∈ w.calculatedFields) :
    let name := (Formulas.allAlone t w).measureName (Formulas.alone t f).1
    (∃ g ∈ w.calculatedFields, g.name = sought f ∧ name = g.displayName) ∨
      f.name = "" ∧ (∀ g ∈ w.calculatedFields, g.name ≠ Formulas.defaultName) ∧
        name = Formulas.defaultName := by
  simp only [measureName_alone]
  cases hFind : w.calculatedFields.find? (·.name = sought f) with
  | some g =>
    have hName : g.name = sought f := by simpa using List.find?_some hFind
    exact .inl ⟨g, List.mem_of_find?_eq_some hFind, hName, rfl⟩
  | none =>
    have hNone : ∀ g ∈ w.calculatedFields, g.name ≠ sought f := by simpa using hFind
    have hName : f.name = "" := by
      by_contra hNamed
      exact hNone f hf (sought_of_ne hNamed).symm
    have hSought : sought f = Formulas.defaultName := if_pos hName
    refine .inr ⟨hName, hSought ▸ hNone, ?_⟩
    simp only [hSought]
    decide

theorem measureNames_iff :
    (∀ f ∈ w.calculatedFields,
      (Formulas.allAlone t w).measureName (Formulas.alone t f).1 = f.displayName) ↔
        NamesAgree w.calculatedFields := by
  constructor
  · intro h
    refine ⟨fun f hf g hg hSame => ?_, fun f hf hName => ?_⟩
    · rw [← h f hf, ← h g hg, measureName_alone, measureName_alone, hSame]
    · have hSought : sought f = Formulas.defaultName := if_pos hName
      rcases measureName_of_mem t w hf with ⟨g, hg, hFound, -⟩ | ⟨-, -, hDefault⟩
      · exact .inr ⟨g, hg, hFound.trans hSought⟩
      · exact .inl ((h f hf).symm.trans hDefault)
  · intro h f hf
    rcases measureName_of_mem t w hf with ⟨g, hg, hFound, hDisplay⟩ | ⟨hName, hNone, hDefault⟩
    · have hNamed : g.name ≠ "" := hFound ▸ sought_ne f
      rw [hDisplay, h.alike g hg f hf ((sought_of_ne hNamed).trans hFound)]
    · rcases h.nameless f hf hName with hDisplay | ⟨g, hg, hUnknown⟩
      · rw [hDefault, hDisplay]
      · exact absurd hUnknown (hNone g hg)

/-- Every measure is published under its own field's name exactly where the names agree and have no
closing bracket. -/
theorem published_iff (s : Tracked) (hName : s.tracker.name = Formulas.tracker.name) :
    let c := ((Formulas.convertWorkbook t w).run s).1
    List.Forall₂
      (fun f block => Publishes block f.displayName (Formulas.orDefault Formulas.defaultRole f.role))
      w.calculatedFields c.blocks ↔
        NamesAgree w.calculatedFields ∧
          ∀ f ∈ w.calculatedFields, ']' ∉ f.displayName.toList := by
  intro c
  have hRun : c = Formulas.allAlone t w :=
    congrArg Prod.fst (Formulas.tells_convertWorkbook t w s hName)
  have hPublishes (f : CalculatedField) (name : String) :
      Publishes (measureBlock name (Formulas.alone t f).1) f.displayName
          (Formulas.orDefault Formulas.defaultRole f.role) ↔
        name = f.displayName ∧ ']' ∉ f.displayName.toList := by
    rw [← fieldRole_alone t f, publishes_iff]
  have hBlocks : (Formulas.allAlone t w).blocks = w.calculatedFields.map fun f =>
      measureBlock ((Formulas.allAlone t w).measureName (Formulas.alone t f).1)
        (Formulas.alone t f).1 :=
    List.map_map
  rw [hRun, hBlocks, List.forall₂_map_right_iff, List.forall₂_same, ← measureNames_iff t w,
    ← forall₂_and]
  exact forall₂_congr fun f _ => hPublishes f _

end

end Migration

end DaxMigration
