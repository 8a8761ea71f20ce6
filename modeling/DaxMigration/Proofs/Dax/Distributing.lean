import DaxMigration.Proofs.Dax.Expanding
import DaxMigration.Proofs.Dax.Folding
import DaxMigration.Proofs.Dax.Lexemes
import DaxMigration.Proofs.Dax.Passage
import DaxMigration.Proofs.Formula.Lossless

/-!
# Rules on either side of an operator

An operator that binds looser than a product parts a row where it follows an operand and every bracket
in front of it is closed: the standard rules write each of its sides as they write it alone, and so
they write a balanced row in parentheses. Behind the operator any row may stand, with brackets left
open or closing nothing; only what stands in front of it must keep its brackets to itself.
-/

namespace DaxMigration.Dax

open Formula Text

variable {t : Target} {a b ls ls' : List Lexeme} {op : Lexeme}

/-! ## Operators that part a row -/

/-- The operators that bind looser than a product, and the comma, as they are spelled in DAX. -/
def looseSpelling? (token : Token) : Option (List Char) :=
  match token with
  | .doubleEquals => some ['=']
  | .plus | .minus | .ampersand | .equals | .notEqual | .lessThan | .greaterThan | .lessEqual
  | .greaterEqual | .comma => some token.display
  | _ => none

/-- A token that none of the rules for single lexemes looks across. -/
structure IsBreak (token : Token) : Prop where
  opens : token.opens = false
  comment : token.isComment = false
  identifier : token.isIdentifier = false
  field : token.isField = false
  table : isTableName token = false

theorem isBreak_rparen : IsBreak .rparen :=
  ⟨rfl, rfl, rfl, rfl, rfl⟩

theorem isBreak_of_loose {token : Token} {spelling : List Char}
    (h : looseSpelling? token = some spelling) : IsBreak token := by
  cases token <;> first | exact ⟨rfl, rfl, rfl, rfl, rfl⟩ | cases h

theorem boundary_of_loose {token : Token} {spelling : List Char}
    (h : looseSpelling? token = some spelling) : unitKind (some .operand) token = .boundary := by
  cases token <;> first | rfl | cases h

theorem display_of_loose {token : Token} {spelling : List Char}
    (h : looseSpelling? token = some spelling) (hDouble : token ≠ .doubleEquals) :
    token.isSign = true ∧ token.display = spelling := by
  cases token <;> first | (cases h; exact ⟨rfl, rfl⟩) | cases h
  exact absurd rfl hDouble

theorem trim_of_loose {token : Token} {spelling : List Char}
    (h : looseSpelling? token = some spelling) : trim spelling = spelling ∧ spelling ≠ [] := by
  cases token <;> first | (cases h; decide) | cases h

/-! ## White space around a mark -/

theorem trimStart_append {left right : List Char} (h : ∀ c ∈ right.head?, isBlank c = false) :
    trimStart (left ++ right) = trimStart left ++ right := by
  have hRight : right.dropWhile isBlank = right := by
    cases right with
    | nil => rfl
    | cons c cs => exact List.dropWhile_cons_of_neg (by simp [h c rfl])
  rw [trimStart, trimStart, List.dropWhile_append, hRight]
  split
  · rename_i hEmpty
    rw [List.isEmpty_iff.1 hEmpty, List.nil_append]
  · rfl

theorem trimEnd_append {left right : List Char} (h : ∀ c ∈ left.getLast?, isBlank c = false) :
    trimEnd (left ++ right) = left ++ trimEnd right := by
  induction left with
  | nil => rfl
  | cons c left ih =>
    have hRest : dropTrailing isBlank (left ++ right) = left ++ trimEnd right := ih fun d hd =>
      h d (by rw [List.getLast?_cons, Option.mem_def.1 hd]; rfl)
    have hKept : ((left ++ trimEnd right).isEmpty && isBlank c) = false := by
      cases left with
      | nil => simp [h c rfl]
      | cons => rfl
    rw [List.cons_append, trimEnd, dropTrailing_cons, hRest, hKept]
    rfl

theorem trimStart_of_blank {text : List Char} (h : allBlank text = true) : trimStart text = [] :=
  List.dropWhile_eq_nil_iff.2 (List.all_eq_true.1 h)

theorem trimEnd_of_blank {text : List Char} (h : allBlank text = true) : trimEnd text = [] :=
  trimEnd_append_of_blank h []

theorem exists_trimStart_eq (text : List Char) :
    ∃ after, allBlank after = true ∧ trimStart text = trim text ++ after := by
  obtain ⟨before, after, hBefore, hAfter, hSplit⟩ := exists_trim text
  have hStart : trimStart text = trimStart (trim text ++ after) := by
    rw [hSplit, trimStart, List.dropWhile_append_of_pos (List.all_eq_true.1 hBefore), ← hSplit]
    rfl
  cases hText : trim text with
  | nil =>
    refine ⟨[], rfl, ?_⟩
    rw [hStart, hText]
    exact trimStart_of_blank hAfter
  | cons c cs =>
    refine ⟨after, hAfter, ?_⟩
    rw [hStart, hText, List.cons_append, trimStart, List.dropWhile_cons_of_neg]
    simpa using (trim_ends text).1 c (by rw [hText]; rfl)

theorem exists_trimEnd_eq (text : List Char) :
    ∃ before, allBlank before = true ∧ trimEnd text = before ++ trim text := by
  obtain ⟨before, after, hBefore, hAfter, hSplit⟩ := exists_trim text
  have hEnd : trimEnd text = trimEnd (before ++ trim text) := by
    conv_lhs => rw [hSplit]
    rw [← List.append_assoc, trimEnd_append_of_blank hAfter]
  cases hText : trim text with
  | nil =>
    refine ⟨[], rfl, ?_⟩
    rw [hEnd, hText, List.append_nil]
    exact trimEnd_of_blank hBefore
  | cons c cs =>
    refine ⟨before, hBefore, ?_⟩
    rw [hEnd, hText]
    refine dropTrailing_eq_self fun d hd => (trim_ends text).2 d ?_
    rw [List.getLast?_append, List.getLast?_cons] at hd
    rw [hText, List.getLast?_cons]
    exact hd

theorem trim_append_of_blank {blank : List Char} (h : allBlank blank = true) (text : List Char) :
    trim (text ++ blank) = trim text := by
  rw [trim, trim, trimStart, List.dropWhile_append]
  split
  · rename_i hEmpty
    rw [trimStart, List.isEmpty_iff.1 hEmpty, ← trimStart, trimStart_of_blank h]
  · exact trimEnd_append_of_blank h _

/-- Around a mark a text is trimmed on either side by itself, but for white space next to the mark. -/
theorem exists_trim_append (left : List Char) {mark : List Char} (right : List Char)
    (hFilled : mark ≠ []) (hMark : trim mark = mark) :
    ∃ before after, allBlank before = true ∧ allBlank after = true ∧
      trim (left ++ (mark ++ right)) = trim left ++ (before ++ (mark ++ (after ++ trim right))) := by
  obtain ⟨hHead, hLast⟩ := trim_ends mark
  rw [hMark] at hHead hLast
  obtain ⟨before, hBefore, hLeft⟩ := exists_trimStart_eq left
  obtain ⟨after, hAfter, hRight⟩ := exists_trimEnd_eq right
  have hBegins : ∀ c ∈ (mark ++ right).head?, isBlank c = false := by
    rwa [List.head?_append_of_ne_nil _ hFilled]
  have hEnds : ∀ c ∈ (trimStart left ++ mark).getLast?, isBlank c = false := by
    rwa [List.getLast?_append_of_ne_nil _ hFilled]
  refine ⟨before, after, hBefore, hAfter, ?_⟩
  rw [trim, trimStart_append hBegins, ← List.append_assoc, trimEnd_append hEnds, hLeft, hRight]
  simp only [List.append_assoc]

/-! ## Rules for single lexemes -/

namespace IsBreak

variable (h : IsBreak op.token)

include h

theorem followedByParen_append (a b : List Lexeme) :
    followedByParen (a ++ op :: b) = followedByParen a := by
  induction a with
  | nil =>
    have hParen : op.token ≠ .lparen := fun hParen => by
      have hOpens := h.opens
      rw [hParen] at hOpens
      cases hOpens
    have hComment : op.isComment = false := h.comment
    simp [followedByParen, hComment, hParen]
  | cons l a ih =>
    cases hComment : l.isComment with
    | true => simpa [followedByParen, hComment] using ih
    | false => simp [followedByParen, hComment]

theorem mapFunctions_append (a b : List Lexeme) :
    mapFunctions t (a ++ op :: b) = mapFunctions t a ++ op :: mapFunctions t b := by
  induction a with
  | nil => exact mapFunctions_of_not_identifier h.identifier b
  | cons l a ih =>
    have hCalled : calledName? l (a ++ op :: b) = calledName? l a := by
      rw [calledName?, calledName?, h.followedByParen_append]
    rw [List.cons_append, mapFunctions, mapFunctions, hCalled, ih]
    split <;> rfl

theorem normalize_append (a b : List Lexeme) :
    normalize (a ++ op :: b) = normalize a ++ normalize (op :: b) := by
  induction a with
  | nil => rfl
  | cons l a ih =>
    have hNames : namesTable (a ++ op :: b) = namesTable a := by
      cases a with
      | nil => exact namesTable_of_head (by simpa using h.field)
      | cons => rfl
    rw [List.cons_append, normalize, normalize, hNames, ih]
    rfl

theorem qualify_append (previous : Option Token) (a b : List Lexeme) :
    qualify t previous (a ++ op :: b) = qualify t previous a ++ op :: qualify t none b := by
  induction a generalizing previous with
  | nil =>
    have hBehind : qualify t (some op.token) b = qualify t none b := by
      cases b with
      | nil => rfl
      | cons l b => simp [qualify, h.table]
    have hField := h.field
    rw [List.nil_append, qualify, qualify, hBehind, List.nil_append]
    split
    · rename_i name hToken
      rw [hToken] at hField
      cases hField
    · rfl
  | cons l a ih => rw [List.cons_append, qualify, qualify, ih, List.cons_append]

end IsBreak

/-! ## Brackets and operands of alike rows -/

theorem closeFrom_of_alike (h : AlikeRows ls ls') (depth i : Nat) :
    closeFrom depth i ls' = closeFrom depth i ls := by
  induction h generalizing depth i with
  | nil => rfl
  | cons hFirst _ ih =>
    rw [closeFrom.eq_def, closeFrom.eq_def]
    simp only [← hFirst.opens, ← hFirst.closes, ih]

theorem allClosed_of_alike (h : AlikeRows ls ls') (hClosed : AllClosed ls) : AllClosed ls' := by
  intro i hi hOpens
  rw [← h.length_eq] at hi
  have hToken : (tokenAt ls i).any Token.opens = (tokenAt ls' i).any Token.opens := by
    have hi' : i < ls'.length := h.length_eq ▸ hi
    have hSame : ls[i].token.opens = ls'[i].token.opens := (h.get hi hi').opens
    simpa [tokenAt, hi, hi'] using hSame
  rw [matchingClose, closeFrom_of_alike (List.forall₂_drop i h)]
  exact hClosed i hi (hToken.trans hOpens)

theorem level_of_alike (h : AlikeRows ls ls') (depth : Nat) :
    level depth (ls'.map Lexeme.token) = level depth (ls.map Lexeme.token) := by
  induction h generalizing depth with
  | nil => rfl
  | cons hFirst _ ih => simp only [List.map_cons, level, ← hFirst.opens, ← hFirst.closes, ih]

theorem balanced_of_alike (h : AlikeRows ls ls') (hBalanced : Balanced ls) : Balanced ls' :=
  (level_of_alike h 0).trans hBalanced

def EndsInOperand (ls : List Lexeme) : Prop :=
  ∃ l ∈ ls.getLast?, l.isComment = false ∧ ∀ k, unitKind k l.token = .operand

theorem endsInOperand_of_alike (h : AlikeRows ls ls') (hEnds : EndsInOperand ls) :
    EndsInOperand ls' := by
  obtain ⟨l, hl, hComment, hKind⟩ := hEnds
  obtain ⟨before, rfl⟩ := List.getLast?_eq_some_iff.1 hl
  obtain ⟨before', last, rfl, -, hLast⟩ := exists_append_of_forall₂ h
  obtain ⟨l', hAlike, rfl⟩ : ∃ l', Alike l.token l'.token ∧ last = [l'] := by
    cases hLast with
    | cons hFirst hRest => cases hRest; exact ⟨_, hFirst, rfl⟩
  refine ⟨l', by simp, ?_, fun k => ?_⟩
  · exact hAlike.comment.symm.trans hComment
  · rw [← hAlike.kind]
    exact hKind k

theorem endsInOperand_of_endsFactor {l : Lexeme} (hLast : a.getLast? = some l)
    (h : l.token.endsFactor false = true) : EndsInOperand a := by
  refine ⟨l, hLast, ?_, fun k => unitKind_of_endsFactor h⟩
  rw [Lexeme.isComment]
  cases hToken : l.token <;> first | rfl | (rw [hToken] at h; cases h)

/-! ## Division -/

/-- The units behind a boundary are those of a row of its own. -/
theorem units_boundary (ps : List Piece) : units (some .boundary) ps = units none ps := by
  induction ps with
  | nil => rfl
  | cons p ps ih =>
    cases p with
    | leaf l =>
      have hKind : unitKind (some .boundary) l.token = unitKind none l.token := by
        cases l.token <;> rfl
      cases hComment : l.isComment with
      | true => simp [units, unitOf, kindAfter, hComment, hKind, ih]
      | false => simp [units, unitOf, kindAfter, hComment, hKind]
    | group => rfl

theorem kindAfter_of_endsInOperand (h : EndsInOperand a) :
    (group a).foldl kindAfter none = some .operand := by
  obtain ⟨l, hl, hComment, hKind⟩ := h
  rw [← flatten_group a] at hl
  rcases List.eq_nil_or_concat (group a) with hEmpty | ⟨ps, p, hGroup⟩
  · rw [hEmpty] at hl
    cases hl
  · rw [hGroup, List.concat_eq_append] at hl ⊢
    rw [List.foldl_append, List.foldl_cons, List.foldl_nil]
    cases p with
    | leaf m =>
      obtain rfl : m = l := by
        simpa [Piece.flattenAll, Piece.flatten] using hl
      simp [kindAfter, hComment, hKind]
    | group => rfl

/-- A boundary behind an operand parts a row whose brackets are closed. -/
theorem convertDivision_append (hClosed : AllClosed a) (hEnds : EndsInOperand a)
    (hBreak : IsBreak op.token) (hKind : unitKind (some .operand) op.token = .boundary)
    (b : List Lexeme) :
    convertDivision (a ++ op :: b) = convertDivision a ++ (op.written ++ convertDivision b) := by
  have hComment : op.isComment = false := hBreak.comment
  have hAfter : kindAfter (some .operand) (.leaf op) = some .boundary := by
    simp [kindAfter, hComment, hKind]
  rw [convertDivision, group_append hClosed, group_leaf hBreak.opens, units_append,
    kindAfter_of_endsInOperand hEnds, units, hAfter, units_boundary,
    foldTerms_append (by simp [unitOf, TermUnit.isBoundary, hKind])]
  rfl

/-- A group is written as its brackets around the row inside. -/
theorem convertDivision_group {opening closing : Lexeme} (hOpens : opening.token.opens = true)
    (hCloses : closing.token.closes = true) (hInner : Balanced a) :
    convertDivision (opening :: (a ++ [closing])) =
      opening.written ++ (convertDivision a ++ closing.written) := by
  have hGroup : group (opening :: (a ++ [closing])) = [.group opening (group a) closing] :=
    group_group hOpens hInner hCloses
  rw [convertDivision, hGroup]
  simp [units, unitOf, foldTerms, foldTerm, cutAt, join, TermUnit.isBoundary, TermUnit.isDivide,
    TermUnit.written, Lexeme.written, convertDivision]

/-! ## Operators as they are read -/

structure SpelledAs (spelling : List Char) (op sign : Lexeme) : Prop where
  leading : sign.leading = op.leading
  text : sign.text = spelling
  isBreak : IsBreak sign.token
  kind : unitKind (some .operand) sign.token = .boundary
  normalize (b : List Lexeme) : normalize (op :: b) = sign :: normalize b

theorem exists_spelledAs {source spelling : List Char} (h : op ∈ tokenize source)
    (hLoose : looseSpelling? op.token = some spelling) : ∃ sign, SpelledAs spelling op sign := by
  have hBreak := isBreak_of_loose hLoose
  have hKind := boundary_of_loose hLoose
  by_cases hNot : op.token = .notEqual
  · rw [hNot] at hLoose
    obtain rfl : ['<', '>'] = spelling := Option.some.inj hLoose
    exact ⟨{ op with text := ['<', '>'] }, rfl, rfl, hBreak, hKind, fun b => by rw [normalize, hNot]⟩
  by_cases hDouble : op.token = .doubleEquals
  · rw [hDouble] at hLoose
    obtain rfl : ['='] = spelling := Option.some.inj hLoose
    exact ⟨{ op with token := .equals, text := ['='] }, rfl, rfl, @isBreak_of_loose .equals _ rfl,
      rfl, fun b => by rw [normalize, hDouble]⟩
  · obtain ⟨hSign, hSpelling⟩ := display_of_loose hLoose hDouble
    refine ⟨op, rfl, (text_of_isSign h hSign hNot).trans hSpelling, hBreak, hKind, fun b => ?_⟩
    have hTable := hBreak.table
    rw [normalize]
    split
    · contradiction
    · contradiction
    · rename_i hQuoted
      rw [hQuoted] at hTable
      cases hTable
    · rfl

theorem respelled_append {spelling : List Char} {sign : Lexeme} (hBreak : IsBreak op.token)
    (hSign : SpelledAs spelling op sign) (a b : List Lexeme) :
    respelled t (a ++ op :: b) = respelled t a ++ sign :: respelled t b := by
  rw [respelled, hBreak.mapFunctions_append, hBreak.normalize_append, hSign.normalize,
    hSign.isBreak.qualify_append]
  rfl

/-- A bracket keeps its text, and the row behind it is respelled as a row of its own. -/
theorem respelled_parenthesized {opening closing : Lexeme} (hOpening : opening.token = .lparen)
    (hClosing : closing.token = .rparen) (a : List Lexeme) :
    respelled t (opening :: (a ++ [closing])) = opening :: (respelled t a ++ [closing]) := by
  have hBreak : IsBreak closing.token := hClosing ▸ isBreak_rparen
  have hMapped : mapFunctions t (opening :: (a ++ [closing])) =
      opening :: (mapFunctions t a ++ [closing]) := by
    rw [mapFunctions_of_not_identifier (by rw [hOpening]; rfl), hBreak.mapFunctions_append]
    rfl
  have hNormal : normalize (opening :: (mapFunctions t a ++ [closing])) =
      opening :: (normalize (mapFunctions t a) ++ [closing]) := by
    rw [normalize, hOpening, hBreak.normalize_append, normalize, hClosing]
    rfl
  have hFirst (ls : List Lexeme) : qualify t none (opening :: ls) = opening :: qualify t none ls := by
    rw [qualify, hOpening]
    cases ls with
    | nil => rfl
    | cons l ls => simp [qualify, isTableName]
  rw [respelled, hMapped, hNormal, hFirst, hBreak.qualify_append]
  rfl

/-! ## Whole rows -/

/-- Behind an operand an operator that binds looser than a product parts a row into two that are
written each by itself. -/
theorem standard_append {source spelling : List Char} (hClosed : AllClosed a) {last : Lexeme}
    (hLast : a.getLast? = some last) (hOperand : last.token.endsFactor false = true)
    (hOp : op ∈ tokenize source) (hLoose : looseSpelling? op.token = some spelling)
    (b : List Lexeme) :
    ∃ before after, allBlank before = true ∧ allBlank after = true ∧
      standard t (a ++ op :: b) =
        standard t a ++ (before ++ (spelling ++ (after ++ standard t b))) := by
  have hAlike := alike_respelled t a
  obtain ⟨sign, hSign⟩ := exists_spelledAs hOp hLoose
  have hDivided := convertDivision_append (allClosed_of_alike hAlike hClosed)
    (endsInOperand_of_alike hAlike (endsInOperand_of_endsFactor hLast hOperand)) hSign.isBreak
    hSign.kind (respelled t b)
  have hBlank := (isRead_tokenize source).blank op hOp
  obtain ⟨hTrim, hFilled⟩ := trim_of_loose hLoose
  obtain ⟨before, after, hBefore, hAfter, hText⟩ := exists_trim_append
    (convertDivision (respelled t a) ++ op.leading) (convertDivision (respelled t b)) hFilled hTrim
  refine ⟨before, after, hBefore, hAfter, ?_⟩
  rw [trim_append_of_blank hBlank, List.append_assoc] at hText
  rw [standard_eq, respelled_append (isBreak_of_loose hLoose) hSign, hDivided, Lexeme.written,
    hSign.leading, hSign.text, List.append_assoc op.leading, hText]
  rfl

theorem trim_parenthesized {lead : List Char} (hBlank : allBlank lead = true) (inner : List Char) :
    trim (lead ++ '(' :: (inner ++ [')'])) = '(' :: (inner ++ [')']) := by
  have hHead : ∀ c ∈ ('(' :: (inner ++ [')'])).head?, isBlank c = false := by
    intro c hc
    obtain rfl : '(' = c := Option.some.inj hc
    decide
  rw [trim, trimStart_append hHead, trimStart_of_blank hBlank, List.nil_append]
  refine dropTrailing_eq_self fun c hc => ?_
  rw [← List.cons_append, List.getLast?_concat] at hc
  obtain rfl : ')' = c := Option.some.inj hc
  decide

theorem text_of_paren {source : List Char} {l : Lexeme} (hl : l ∈ tokenize source) :
    (l.token = .lparen → l.text = ['(']) ∧ (l.token = .rparen → l.text = [')']) := by
  refine ⟨fun h => ?_, fun h => ?_⟩ <;>
    · rw [text_of_isSign hl (by rw [h]; rfl) (by simp [h]), h]
      rfl

/-- A row in parentheses is written as it is written by itself. -/
theorem standard_parenthesized {source source' : List Char} {opening closing : Lexeme}
    (h : Balanced a) (hOpen : opening ∈ tokenize source) (hClose : closing ∈ tokenize source')
    (hOpening : opening.token = .lparen) (hClosing : closing.token = .rparen) :
    ∃ before after, allBlank before = true ∧ allBlank after = true ∧
      standard t (opening :: (a ++ [closing])) =
        '(' :: (before ++ (standard t a ++ (after ++ [')']))) := by
  have hOpenBlank := (isRead_tokenize source).blank opening hOpen
  have hCloseBlank := (isRead_tokenize source').blank closing hClose
  have hOpenText := (text_of_paren hOpen).1 hOpening
  have hCloseText := (text_of_paren hClose).2 hClosing
  have hDivided := convertDivision_group (by rw [hOpening]; rfl) (by rw [hClosing]; rfl)
    (balanced_of_alike (alike_respelled t a) h)
  obtain ⟨before, after, hBefore, hAfter, hSplit⟩ := exists_trim (convertDivision (respelled t a))
  rw [← standard_eq] at hSplit
  refine ⟨before, after ++ closing.leading, hBefore, ?_, ?_⟩
  · rw [allBlank, List.all_append, ← allBlank, ← allBlank, hAfter, hCloseBlank]
    rfl
  · have hText : convertDivision (respelled t (opening :: (a ++ [closing]))) = opening.leading ++
        '(' :: ((before ++ (standard t a ++ (after ++ closing.leading))) ++ [')']) := by
      rw [respelled_parenthesized hOpening hClosing, hDivided, hSplit, Lexeme.written,
        Lexeme.written, hOpenText, hCloseText]
      simp only [List.append_assoc, List.cons_append, List.nil_append]
    rw [standard_eq, hText, trim_parenthesized hOpenBlank]
    simp only [List.append_assoc]

/-- The standard rules write what stands on either side of an operator that binds looser than a
product by itself, and what stands in parentheses as well, up to white space. -/
theorem standard_distributes (t : Target) (a : List Lexeme) :
    (∀ (b : List Lexeme) (op : Lexeme) (source spelling : List Char), AllClosed a →
      (∃ last ∈ a.getLast?, last.token.endsFactor false = true) → op ∈ tokenize source →
      looseSpelling? op.token = some spelling →
      ∃ before after, allBlank before = true ∧ allBlank after = true ∧
        standard t (a ++ op :: b) =
          standard t a ++ (before ++ (spelling ++ (after ++ standard t b)))) ∧
    ∀ (opening closing : Lexeme) (source source' : List Char), Balanced a →
      opening ∈ tokenize source → closing ∈ tokenize source' →
      opening.token = .lparen → closing.token = .rparen →
      ∃ before after, allBlank before = true ∧ allBlank after = true ∧
        standard t (opening :: (a ++ [closing])) =
          '(' :: (before ++ (standard t a ++ (after ++ [')']))) := by
  refine ⟨fun b op source spelling hClosed hEnds hOp hLoose => ?_,
    fun opening closing source source' hBalanced hOpen hClose hOpening hClosing => ?_⟩
  · obtain ⟨last, hLast, hOperand⟩ := hEnds
    exact standard_append hClosed hLast hOperand hOp hLoose b
  · exact standard_parenthesized hBalanced hOpen hClose hOpening hClosing

/-- Behind the operator a bracket may close that nothing opened, and another stay open. -/
theorem standard_distributes_stray :
    let t : Target := ⟨fun _ => none, "Sales".toList, "Date".toList⟩
    let a := tokenize "[x] / (2 + [y])".toList
    let b := tokenize "-[z] / 3) * (".toList
    standard t a = "DIVIDE(Sales[x], (2 + Sales[y]), 0)".toList ∧ ¬AllClosed b ∧
      (∃ before after, allBlank before = true ∧ allBlank after = true ∧
        standard t (a ++ ⟨.notEqual, ['!', '='], []⟩ :: b) =
          standard t a ++ (before ++ (['<', '>'] ++ (after ++ standard t b)))) ∧
      ∃ before after, allBlank before = true ∧ allBlank after = true ∧
        standard t (⟨.lparen, ['('], []⟩ :: (a ++ [⟨.rparen, [')'], []⟩])) =
          '(' :: (before ++ (standard t a ++ (after ++ [')']))) := by
  intro t a b
  refine ⟨by decide +kernel, by decide +kernel, ?_, ?_⟩
  · exact (standard_distributes t a).1 b _ ['!', '='] _ (by decide +kernel)
      ⟨⟨.rparen, [')'], []⟩, by decide +kernel, rfl⟩ (by decide +kernel) rfl
  · exact (standard_distributes t a).2 _ _ ['('] [')'] (by decide +kernel) (by decide +kernel)
      (by decide +kernel) rfl rfl

end DaxMigration.Dax
