import DaxMigration.Proofs.Dax.Terms
import DaxMigration.Proofs.Formula.Expression

/-!
# Neighbours in a divided row

The calls that the pass puts in the place of quotients touch their neighbours only where a term
begins or ends. A row in which every lexeme ends where the next one begins stays one.
-/

namespace DaxMigration.Dax

open Formula Text Divisible

def opensTerm (t : Token) : Bool :=
  t.opens || t.isDivisionBoundary || t.isComment

def beginsTerm (t : Token) : Bool :=
  t != .comma && !isFactorSign t

structure Sits (l m : Lexeme) : Prop where
  fits : Fits l m
  apart : l.token.isKeyword = true → m.leading ≠ [] ∨ m.token = .comma
  sign : opensTerm l.token = true → isFactorSign m.token = false

theorem sits_commaSign (l : Lexeme) : Sits l commaSign where
  fits := .inr fun d hd => by
    obtain rfl : ',' = d := by simpa [commaSign] using hd
    cases l.token <;> first | rfl | simp [Token.goesOn]
  apart _ := .inr rfl
  sign _ := rfl

theorem sits_of_closeSign (m : Lexeme) : Sits closeSign m where
  fits := .inr fun _ _ => rfl
  apart := by simp [closeSign, Token.isKeyword]
  sign := by simp [closeSign, opensTerm, Token.opens, Token.isDivisionBoundary, Token.isComment]

theorem sits_of_openSign {m : Lexeme} (h : beginsTerm m.token = true) : Sits openSign m where
  fits := .inr fun _ _ => rfl
  apart := by simp [openSign, Token.isKeyword]
  sign _ := by simpa [beginsTerm] using (by simpa [beginsTerm] using h : _ ∧ _).2

theorem sits_of_commaSign {m : Lexeme} (h : beginsTerm m.token = true) : Sits commaSign m where
  fits := .inr fun _ _ => rfl
  apart := by simp [commaSign, Token.isKeyword]
  sign _ := by simpa [beginsTerm] using (by simpa [beginsTerm] using h : _ ∧ _).2

theorem sits_divideName (leading : List Char) : Sits (divideName leading) openSign where
  fits := .inr fun d hd => by
    obtain rfl : '(' = d := by simpa [openSign] using hd
    show isNameCharacter '(' = false
    decide
  apart h := absurd h (by show ¬isKeyword "DIVIDE".toList = true; decide)
  sign _ := rfl

theorem sits_zeroSign : Sits zeroSign closeSign where
  fits := .inr fun d hd => by
    obtain rfl : ')' = d := by simpa [closeSign] using hd
    rfl
  apart := by simp [zeroSign, Token.isKeyword]
  sign := by simp [zeroSign, opensTerm, Token.opens, Token.isDivisionBoundary, Token.isComment]

theorem isKeyword_of_isOperatorWord {s : Token} (h : s.isOperatorWord = true) :
    s.isKeyword = true := by
  have hWords : ∀ s ∈ [Token.identifier "AND".toList, .identifier "OR".toList, negationWord],
      s.isKeyword = true := by decide
  refine hWords s ?_
  simpa [Token.isOperatorWord, Token.isConnective, or_assoc] using h

theorem isKeyword_of_isTable {s : Token} (h : IsTable s) : s.isKeyword = false := by
  cases h with
  | name hName => exact hName
  | quoted => rfl

theorem mem_of_begins {c d : Char} {cs : List Char} (h : (some c == some d) = true)
    (hMem : c ∈ cs) : d ∈ cs := by
  obtain rfl : c = d := by simpa using h
  exact hMem

theorem begins_operator {u : Token} {d : Char} (hOperator : u.isOperator = true)
    (hBegins : u.begins d = true) :
    d ∈ ['+', '-', '&', '=', '!', '<', '>', '*', '/', '%', '^', ','] := by
  cases u with
  | notEqual =>
    have hEither : d = '!' ∨ d = '<' := by simpa using (show (d == '!' || d == '<') = true from hBegins)
    rcases hEither with rfl | rfl <;> decide
  | plus | minus | asterisk | slash | percent | caret | ampersand | equals | doubleEquals | lessThan
  | greaterThan | lessEqual | greaterEqual | comma => exact mem_of_begins hBegins (by decide)
  | _ => cases hOperator

theorem goesOn_of_endsOperand {s u : Token} {d : Char} (hEnd : s.endsOperand = true)
    (hOperator : u.isOperator = true) (hBegins : u.begins d = true) : s.goesOn d = false := by
  have hNone : ∀ d ∈ ['+', '-', '&', '=', '!', '<', '>', '*', '/', '%', '^', ','],
      (d.isDigit || d == '.' || d == 'e' || d == 'E') = false ∧ (d == '"') = false ∧
        (d == '\'') = false ∧ (d == ']') = false := by decide
  obtain ⟨hDigits, hDouble, hSingle, hClose⟩ := hNone d (begins_operator hOperator hBegins)
  cases s with
  | number => exact hDigits
  | string => exact hDouble
  | singleQuoted => exact hSingle
  | field => exact hClose
  | rparen => rfl
  | _ => cases hEnd

theorem not_mem_of_startsOperand {u : Token} {d : Char} (hStart : u.startsOperand = true)
    (hBegins : u.begins d = true) : d ∉ ['=', '>', '/', '*'] := by
  have hNone : ∀ d ∈ ['=', '>', '/', '*'], u.begins d = false := by
    intro d hd
    cases u with
    | number => revert d; simp only [Token.begins]; decide
    | identifier => revert d; simp only [Token.begins]; decide
    | string | singleQuoted | field => revert d; simp only [Token.begins]; decide
    | plus | minus | lparen => revert d; decide
    | _ => cases hStart
  intro hMem
  rw [hNone d hMem] at hBegins
  cases hBegins

theorem goesOn_of_isOperator {s : Token} {d : Char} (hOperator : s.isOperator = true)
    (hNot : d ∉ ['=', '>', '/', '*']) : s.goesOn d = false := by
  simp only [List.mem_cons, List.not_mem_nil, or_false, not_or] at hNot
  obtain ⟨hEquals, hGreater, hSlash, hStar⟩ := hNot
  cases s with
  | equals | greaterThan => exact beq_eq_false_iff_ne.2 hEquals
  | lessThan => exact Bool.or_eq_false_iff.2 ⟨beq_eq_false_iff_ne.2 hEquals, beq_eq_false_iff_ne.2 hGreater⟩
  | slash => exact Bool.or_eq_false_iff.2 ⟨beq_eq_false_iff_ne.2 hSlash, beq_eq_false_iff_ne.2 hStar⟩
  | plus | minus | asterisk | percent | caret | ampersand | doubleEquals | notEqual | lessEqual
  | greaterEqual | comma => rfl
  | _ => cases hOperator

theorem isFactorSign_of_startsOperand {u : Token} (h : u.startsOperand = true) :
    isFactorSign u = false := by
  cases u <;> first | rfl | cases h

theorem isKeyword_of_isOperator {s : Token} (h : s.isOperator = true) : s.isKeyword = false := by
  cases s <;> first | rfl | cases h

theorem inner_of_endsOperand {s : Token} (h : s.endsOperand = true) :
    s.isKeyword = false ∧ opensTerm s = false := by
  cases s <;> first | exact ⟨rfl, rfl⟩ | cases h

/-- Brackets continue no token. -/
theorem goesOn_bracket {d : Char} (hd : d ∈ ['(', ')', '[']) (s : Token) : s.goesOn d = false := by
  have hNone : ∀ d ∈ ['(', ')', '['], isNameCharacter d = false ∧
      (d.isDigit || d == '.' || d == 'e' || d == 'E') = false ∧
      ∀ e ∈ ['"', '\'', ']', '/', '*', '=', '>'], (d == e) = false := by decide
  obtain ⟨hName, hDigits, hMarks⟩ := hNone d hd
  simp only [List.forall_mem_cons, beq_eq_false_iff_ne] at hMarks
  have hDigit : d.isDigit = false := by
    simp only [Bool.or_eq_false_iff] at hDigits
    exact hDigits.1.1.1
  cases s with
  | number => exact hDigits
  | _ => simp [Token.goesOn, hName, hDigit, hMarks]

theorem goesOn_of_begins {s u : Token} {d : Char} (hBracket : u = .lparen ∨ u = .rparen)
    (hBegins : u.begins d = true) : s.goesOn d = false := by
  refine goesOn_bracket ?_ s
  rcases hBracket with rfl | rfl
  · exact mem_of_begins hBegins (by decide)
  · exact mem_of_begins hBegins (by decide)

theorem goesOn_field {s : Token} {name : List Char} {d : Char}
    (hBegins : (Token.field name).begins d = true) : s.goesOn d = false := by
  obtain rfl : d = '[' := by simpa using (show (d == '[') = true from hBegins)
  exact goesOn_bracket (by decide) s

/-- Lexemes that follow one another in an expression sit next to one another. -/
theorem sits_of_follows {table : Option Token} (hTable : ∀ s ∈ table, IsTable s) {l m : Lexeme}
    (h : Follows table l.token m.token) (hSetOff : SetOff l m) (hWhole : Whole m) : Sits l m := by
  have hBegins := hWhole.begins
  obtain ⟨hKeyword, hConnective⟩ := hSetOff
  simp only [Lexeme.isAttached, List.isEmpty_eq_false_iff] at hKeyword hConnective
  suffices hSits : ∀ s u, l.token = s → m.token = u → Follows table s u → Sits l m from
    hSits _ _ rfl rfl h
  intro s u hs hu hFollows
  rw [hs] at hKeyword
  rw [hu] at hConnective hBegins
  cases hFollows with
  | operator hEnd hOperator =>
    obtain ⟨hWord, hOpens⟩ := inner_of_endsOperand hEnd
    refine ⟨.inr fun d hd => ?_, by simp [hs, hWord], by simp [hs, hOpens]⟩
    rw [hs]
    exact goesOn_of_endsOperand hEnd hOperator (hBegins d hd)
  | connective hEnd hWord =>
    obtain ⟨hNone, hOpens⟩ := inner_of_endsOperand hEnd
    exact ⟨.inl (hConnective hWord), by simp [hs, hNone], by simp [hs, hOpens]⟩
  | close hEnd =>
    obtain ⟨hWord, hOpens⟩ := inner_of_endsOperand hEnd
    exact ⟨.inr fun d hd => goesOn_of_begins (.inr rfl) (hBegins d hd), by simp [hs, hWord],
      by simp [hs, hOpens]⟩
  | operand hOperator hStart =>
    refine ⟨.inr fun d hd => ?_, by simp [hs, isKeyword_of_isOperator hOperator], fun _ => ?_⟩
    · rw [hs]
      exact goesOn_of_isOperator hOperator (not_mem_of_startsOperand hStart (hBegins d hd))
    · rw [hu]
      exact isFactorSign_of_startsOperand hStart
  | word hWord hStart =>
    have hLeading := hKeyword (isKeyword_of_isOperatorWord hWord)
    exact ⟨.inl hLeading, fun _ => .inl hLeading,
      fun _ => by rw [hu]; exact isFactorSign_of_startsOperand hStart⟩
  | inner hStart =>
    exact ⟨.inr fun d _ => by rw [hs]; rfl, by simp [hs, Token.isKeyword],
      fun _ => by rw [hu]; exact isFactorSign_of_startsOperand hStart⟩
  | name hName =>
    exact ⟨.inr fun d hd => goesOn_of_begins (.inl rfl) (hBegins d hd),
      by simp [hs, Token.isKeyword, hName], fun _ => by rw [hu]; rfl⟩
  | empty =>
    exact ⟨.inr fun d _ => by rw [hs]; rfl, by simp [hs, Token.isKeyword],
      fun _ => by rw [hu]; rfl⟩
  | member hMember =>
    exact ⟨.inr fun d hd => goesOn_field (hBegins d hd),
      by simp [hs, isKeyword_of_isTable (hTable _ hMember)], fun _ => by rw [hu]; rfl⟩

/-- What a comment is to its neighbours, if neither joins the operands of a term. -/
theorem sits_of_comment {l m : Lexeme} (hComment : l.isComment = true)
    (hSign : isFactorSign m.token = false) : Sits l m := by
  unfold Lexeme.isComment at hComment
  refine ⟨.inr fun d _ => ?_, fun hKeyword => ?_, fun _ => hSign⟩
  · cases hToken : l.token <;> simp_all [Token.isComment, Token.goesOn]
  · cases hToken : l.token <;> simp_all [Token.isComment, Token.isKeyword]

theorem sits_comment {l m : Lexeme} (hComment : m.isComment = true) (hWhole : Whole m)
    (hSign : isFactorSign l.token = false) (hSetOff : SetOff l m) : Sits l m := by
  unfold Lexeme.isComment at hComment
  obtain ⟨body, hToken⟩ : ∃ body, m.token = .comment body := by
    cases hToken : m.token <;> simp_all [Token.isComment]
  refine ⟨.inr fun d hd => ?_, fun hKeyword => .inl ?_, fun _ => by rw [hToken]; rfl⟩
  · have hBegins := hWhole.begins d hd
    rw [hToken] at hBegins
    obtain rfl : d = '/' := by simpa [Token.begins] using hBegins
    have hName : isNameCharacter '/' = false := by decide
    cases hLeft : l.token <;> simp_all [Token.goesOn, isFactorSign]
  · simpa [Lexeme.isAttached] using hSetOff.keyword hKeyword

theorem isKeyword_of_isDivisionBoundary {name : List Char}
    (h : (Token.identifier name).isDivisionBoundary = true) : isKeyword name = true := by
  obtain ⟨word, hMem, hSame⟩ := List.any_eq_true.1 h
  have hWords : ∀ word ∈ Token.looseWords, isKeyword word.toList = true := by decide
  have hWord := hWords word hMem
  rwa [beq_iff_eq.1 hSame] at hWord

theorem goesOn_of_opensTerm {t : Token} (h : opensTerm t = true) (hWord : t.isKeyword = false) :
    t.goesOn 'D' = false := by
  cases t with
  | identifier name =>
    have hKeyword := @isKeyword_of_isDivisionBoundary name
      (by simpa [opensTerm, Token.opens, Token.isComment] using h)
    rw [show isKeyword name = false from hWord] at hKeyword
    cases hKeyword
  | _ => first | rfl | cases h

/-- The call stands where its left operand did. -/
theorem sits_divideName_of_left {p l : Lexeme} {ls : List Lexeme} (h : Sits p l)
    (hOpens : opensTerm p.token = true) (hBegins : beginsTerm l.token = true) :
    Sits p (divideName (leadOf (l :: ls))) := by
  obtain ⟨hComma, hSign⟩ : l.token ≠ .comma ∧ isFactorSign l.token = false := by
    simpa [beginsTerm] using hBegins
  have hLead : (divideName (leadOf (l :: ls))).leading = l.leading := by
    simp [divideName, leadOf, hSign]
  have hApart : p.token.isKeyword = true → l.leading ≠ [] := fun hWord =>
    (h.apart hWord).resolve_right hComma
  refine ⟨?_, fun hWord => .inl (hLead ▸ hApart hWord), fun _ => rfl⟩
  cases hWord : p.token.isKeyword with
  | true => exact .inl (hLead ▸ hApart hWord)
  | false =>
    refine .inr fun d hd => ?_
    obtain rfl : 'D' = d := by simpa [divideName] using hd
    exact goesOn_of_opensTerm hOpens hWord

/-- Lexemes that are related this way are so in the row that the pass makes of theirs. -/
structure Neighbourly (R : Lexeme → Lexeme → Prop) : Prop where
  comma (l : Lexeme) : R l commaSign
  closing (m : Lexeme) : R closeSign m
  opening {m : Lexeme} (h : beginsTerm m.token = true) : R openSign m
  second {m : Lexeme} (h : beginsTerm m.token = true) : R commaSign m
  name (leading : List Char) : R (divideName leading) openSign
  zero : R zeroSign closeSign
  call {p l : Lexeme} {ls : List Lexeme} (h : R p l) (hOpens : opensTerm p.token = true)
    (hBegins : beginsTerm l.token = true) : R p (divideName (leadOf (l :: ls)))
  /-- The white space in front of the first of them does not matter. -/
  leading {l m : Lexeme} (h : R l m) (leading : List Char) : R { l with leading := leading } m
  sign {p l : Lexeme} (h : R p l) (hOpens : opensTerm p.token = true) : isFactorSign l.token = false

theorem neighbourly_sits : Neighbourly Sits where
  comma := sits_commaSign
  closing := sits_of_closeSign
  opening := sits_of_openSign
  second := sits_of_commaSign
  name := sits_divideName
  zero := sits_zeroSign
  call := sits_divideName_of_left
  leading h _ := ⟨h.fits, h.apart, h.sign⟩
  sign h := h.sign

section Rows

variable {R : Lexeme → Lexeme → Prop} (hR : Neighbourly R)

include hR

theorem isChain_cons_leading {l : Lexeme} {ls : List Lexeme} (leading : List Char)
    (h : (l :: ls).IsChain R) : ({ l with leading := leading } :: ls).IsChain R := by
  rw [List.isChain_cons] at h ⊢
  exact ⟨fun m hm => hR.leading (h.1 m hm) leading, h.2⟩

theorem isChain_unlead {ls : List Lexeme} (h : ls.IsChain R) : (unlead ls).IsChain R := by
  cases ls with
  | nil => exact h
  | cons l ls =>
    rw [unlead]
    split
    · exact h
    · exact isChain_cons_leading hR [] h

theorem isChain_spaced {ls : List Lexeme} (h : ls.IsChain R) : (spaced ls).IsChain R := by
  cases ls with
  | nil => exact h
  | cons l ls => exact isChain_cons_leading hR [' '] h

theorem isChain_join {a b : List Lexeme} (ha : a.IsChain R)
    (hb : (commaSign :: b).IsChain R) : (a ++ commaSign :: b).IsChain R := by
  rw [List.isChain_append]
  refine ⟨ha, hb, fun x _ y hy => ?_⟩
  obtain rfl : commaSign = y := by simpa using hy
  exact hR.comma x

/-- A quotient between its neighbours becomes a call between the same neighbours. -/
theorem isChain_quotient {before left right after : List Lexeme} {sign : Lexeme}
    (h : (before ++ (left ++ sign :: right) ++ after).IsChain R)
    (hOpens : ∀ p ∈ before.getLast?, opensTerm p.token = true)
    (hLeft : ∀ l ∈ left.head?, beginsTerm l.token = true) (hLeftFilled : left ≠ [])
    (hRight : ∀ l ∈ right.head?, beginsTerm l.token = true) (hRightFilled : right ≠ []) :
    (before ++ quotient left right ++ after).IsChain R := by
  obtain ⟨l, ls, rfl⟩ := List.exists_cons_of_ne_nil hLeftFilled
  obtain ⟨r, rs, rfl⟩ := List.exists_cons_of_ne_nil hRightFilled
  rw [List.append_assoc, List.isChain_append] at h
  obtain ⟨hBefore, hRest, hEnter⟩ := h
  rw [List.isChain_append] at hRest
  obtain ⟨hBoth, hAfter, _⟩ := hRest
  rw [List.isChain_append] at hBoth
  obtain ⟨hLefts, hRights, _⟩ := hBoth
  have hZero : (zeroSign :: closeSign :: after).IsChain R := by
    rw [List.isChain_cons_cons, List.isChain_cons]
    exact ⟨hR.zero, fun m _ => hR.closing m, hAfter⟩
  have hEnd : (commaSign :: zeroSign :: closeSign :: after).IsChain R :=
    .cons_cons (hR.second rfl) hZero
  have hRightEnd := isChain_join hR (isChain_spaced hR hRights.tail) hEnd
  have hComma : (commaSign :: (spaced (r :: rs) ++ commaSign :: zeroSign :: closeSign ::
      after)).IsChain R := by
    refine .cons_cons (hR.second ?_) hRightEnd
    exact hRight r rfl
  have hLeftEnd := isChain_join hR (isChain_unlead hR hLefts) hComma
  have hOpen : (openSign :: (unlead (l :: ls) ++ commaSign :: (spaced (r :: rs) ++
      commaSign :: zeroSign :: closeSign :: after))).IsChain R := by
    rw [List.isChain_cons]
    refine ⟨fun m hm => hR.opening ?_, hLeftEnd⟩
    have hSame : m.token = l.token := by
      rw [unlead] at hm
      split at hm
      · obtain rfl : l = m := by simpa using hm
        rfl
      · obtain rfl : { l with leading := [] } = m := by simpa using hm
        rfl
    rw [hSame]
    exact hLeft l rfl
  have hCall := List.IsChain.cons_cons (hR.name (leadOf (l :: ls))) hOpen
  have hAll : (before ++ divideName (leadOf (l :: ls)) :: openSign :: (unlead (l :: ls) ++
      commaSign :: (spaced (r :: rs) ++ commaSign :: zeroSign :: closeSign :: after))).IsChain
        R := by
    rw [List.isChain_append]
    refine ⟨hBefore, hCall, fun p hp m hm => ?_⟩
    obtain rfl : divideName (leadOf (l :: ls)) = m := by simpa using hm
    exact hR.call (hEnter p hp l rfl) (hOpens p hp) (hLeft l rfl)
  simpa [quotient] using hAll

end Rows

/-! ## The pass -/

def Terms.row (f : Terms Lexeme) : List Lexeme :=
  f.done ++ match f.waiting with
    | none => f.operand
    | some (left, sign) => left ++ sign :: f.operand

structure Terms.IsClean (f : Terms Lexeme) : Prop where
  done : ∀ p ∈ f.done.getLast?, opensTerm p.token = true
  operand : ∀ l ∈ f.operand.head?, beginsTerm l.token = true
  left : ∀ w ∈ f.waiting, w.1 ≠ [] ∧ ∀ l ∈ w.1.head?, beginsTerm l.token = true

theorem Terms.IsClean.start : IsClean .start :=
  ⟨by simp [Terms.start], by simp [Terms.start], by simp [Terms.start]⟩

theorem Terms.isChain_result {R : Lexeme → Lexeme → Prop} (hR : Neighbourly R) {f : Terms Lexeme} (hClean : f.IsClean) {before after : List Lexeme}
    (hOpens : ∀ p ∈ before.getLast?, opensTerm p.token = true)
    (h : (before ++ f.row ++ after).IsChain R) :
    (before ++ f.result ++ after).IsChain R := by
  obtain ⟨done, waiting, operand, last⟩ := f
  obtain ⟨hDone, hOperand, hLeft⟩ := hClean
  simp only [row, result, value] at h ⊢
  cases waiting with
  | none => exact h
  | some w =>
    obtain ⟨left, sign⟩ := w
    obtain ⟨hFilled, hBegins⟩ := hLeft _ rfl
    simp only [combine] at h ⊢
    split
    · rename_i hQuotient
      have hLast : ∀ p ∈ (before ++ done).getLast?, opensTerm p.token = true := by
        intro p hp
        rw [List.getLast?_append] at hp
        cases hEnd : done.getLast? with
        | none => exact hOpens p (by simpa [hEnd] using hp)
        | some q => exact hDone p (by simpa [hEnd] using hp)
      rw [← List.append_assoc] at h ⊢
      exact isChain_quotient hR h hLast hBegins hFilled hOperand hQuotient.2.2
    · exact h

/-- The term read so far begins as a term may begin. -/
theorem Terms.IsClean.value {f : Terms Lexeme} (h : f.IsClean)
    (hFilled : f.waiting = none → f.operand ≠ []) :
    f.value ≠ [] ∧ ∀ l ∈ f.value.head?, beginsTerm l.token = true := by
  obtain ⟨done, waiting, operand, last⟩ := f
  obtain ⟨_, hOperand, hLeft⟩ := h
  cases waiting with
  | none => exact ⟨hFilled rfl, hOperand⟩
  | some w =>
    obtain ⟨left, sign⟩ := w
    obtain ⟨hLeftFilled, hBegins⟩ := hLeft _ rfl
    obtain ⟨l, ls, rfl⟩ := List.exists_cons_of_ne_nil hLeftFilled
    simp only [Terms.value, combine]
    split
    · exact ⟨by simp [quotient], by simp [quotient, divideName, beginsTerm, isFactorSign]⟩
    · exact ⟨by simp, hBegins⟩

def outerRow (frames : List (Lexeme × Terms Lexeme)) : List Lexeme :=
  frames.foldr (fun frame before => before ++ frame.2.row ++ [frame.1]) []

def Pass.row (s : Pass Lexeme) : List Lexeme :=
  outerRow s.frames ++ s.current.row

structure Pass.IsLaid (R : Lexeme → Lexeme → Prop) (s : Pass Lexeme) (rest : List Lexeme) : Prop where
  chain : (s.row ++ rest).IsChain R
  current : s.current.IsClean
  frames : ∀ frame ∈ s.frames, frame.2.IsClean ∧ frame.1.token.opens = true
  first : s.row = [] → ∀ l ∈ rest.head?, isFactorSign l.token = false

theorem opensTerm_outerRow {frames : List (Lexeme × Terms Lexeme)}
    (h : ∀ frame ∈ frames, frame.2.IsClean ∧ frame.1.token.opens = true) :
    ∀ p ∈ (outerRow frames).getLast?, opensTerm p.token = true := by
  cases frames with
  | nil => simp [outerRow]
  | cons frame frames =>
    intro p hp
    obtain rfl : frame.1 = p := by simpa [outerRow] using hp
    simp [opensTerm, (h frame List.mem_cons_self).2]

theorem beginsTerm_of_operand {t : Token} {k : Option UnitKind} (h : unitKind k t = .operand) :
    beginsTerm t = true := by
  cases hSign : isFactorSign t with
  | true =>
    rcases unitKind_of_isFactorSign hSign k with ⟨hKind, _⟩ | ⟨hKind, _⟩ <;>
      rw [hKind] at h <;> cases h
  | false =>
    have hComma : t ≠ .comma := by
      rintro rfl
      simp [unitKind, Token.isWord, Token.isDivisionBoundary] at h
    simp [beginsTerm, hComma, hSign]

theorem opensTerm_of_boundary {t : Token} {k : Option UnitKind} (h : unitKind k t = .boundary) :
    opensTerm t = true := by
  unfold unitKind at h
  split at h
  · cases h
  · cases h
  · cases h
  · rfl
  · rfl
  · rfl
  · cases hBoundary : t.isDivisionBoundary with
    | true => simp [opensTerm, hBoundary]
    | false => simp [hBoundary] at h

theorem Pass.IsLaid.of_row {R : Lexeme → Lexeme → Prop} {s : Pass Lexeme} {rest : List Lexeme} (base : List Lexeme) (l : Lexeme)
    (hRow : s.row = base ++ [l]) (hChain : (base ++ l :: rest).IsChain R)
    (hCurrent : s.current.IsClean)
    (hFrames : ∀ frame ∈ s.frames, frame.2.IsClean ∧ frame.1.token.opens = true) :
    s.IsLaid R rest where
  chain := by simpa [hRow] using hChain
  current := hCurrent
  frames := hFrames
  first hEmpty := by simp [hRow] at hEmpty

section Laid

variable {R : Lexeme → Lexeme → Prop} (hR : Neighbourly R)

include hR

/-- What stands in front of a sign can be its left operand. -/
theorem Pass.IsLaid.filled {s : Pass Lexeme} {l : Lexeme} {rest : List Lexeme}
    (h : s.IsLaid R (l :: rest)) (hSign : isFactorSign l.token = true) :
    s.current.waiting = none → s.current.operand ≠ [] := by
  obtain ⟨frames, done, waiting, operand, last⟩ := s
  obtain ⟨hChain, hClean, hFrames, hFirst⟩ := h
  rintro rfl rfl
  simp only [Pass.row, Terms.row, List.append_nil] at hChain hFirst
  have hOpens : ∀ p ∈ (outerRow frames ++ done).getLast?, opensTerm p.token = true := by
    intro p hp
    rw [List.getLast?_append] at hp
    cases hEnd : done.getLast? with
    | none => exact opensTerm_outerRow hFrames p (by simpa [hEnd] using hp)
    | some q => exact hClean.done p (by simpa [hEnd] using hp)
  cases hEnd : (outerRow frames ++ done).getLast? with
  | none =>
    have hAlone := hFirst (List.getLast?_eq_none_iff.1 hEnd) l rfl
    rw [hSign] at hAlone
    cases hAlone
  | some p =>
    rw [List.isChain_append] at hChain
    have hNone := hR.sign (hChain.2.2 p hEnd l rfl) (hOpens p hEnd)
    rw [hSign] at hNone
    cases hNone

theorem Pass.IsLaid.leaf {frames : List (Lexeme × Terms Lexeme)} {f : Terms Lexeme} {l : Lexeme}
    {rest : List Lexeme} (h : (Pass.mk frames f).IsLaid R (l :: rest)) :
    (Pass.mk frames (f.leaf l)).IsLaid R rest := by
  have hFilled := h.filled hR
  obtain ⟨hChain, hClean, hFrames, _⟩ := h
  simp only [Pass.row] at hChain hClean hFrames hFilled
  have hResult := Terms.isChain_result hR hClean (opensTerm_outerRow hFrames) hChain
  cases hSign : isFactorSign l.token with
  | true =>
    have hKind : unitKind f.last l.token = .divide ∨ unitKind f.last l.token = .multiply :=
      (unitKind_of_isFactorSign hSign f.last).imp And.left And.left
    rw [Terms.leaf_of_sign hKind]
    refine .of_row (outerRow frames ++ f.result) l ?_ hResult ?_ hFrames
    · simp [Pass.row, Terms.row, Terms.result]
    · refine ⟨hClean.done, by simp, ?_⟩
      intro w hw
      obtain rfl : (f.value, l) = w := by simpa using hw
      exact hClean.value (hFilled hSign)
  | false =>
    rcases unitKind_of_not_isFactorSign hSign f.last with hKind | hKind
    · rw [Terms.leaf_of_operand hKind]
      refine .of_row (outerRow frames ++ f.row) l ?_ hChain ?_ hFrames
      · obtain ⟨done, waiting, operand, last⟩ := f
        cases waiting <;> simp [Pass.row, Terms.row]
      · refine ⟨hClean.done, ?_, hClean.left⟩
        intro m hm
        cases hOperand : f.operand with
        | nil =>
          obtain rfl : l = m := by simpa [hOperand] using hm
          exact beginsTerm_of_operand hKind
        | cons d ds => exact hClean.operand m (by simpa [hOperand] using hm)
    · rw [Terms.leaf_of_boundary hKind]
      refine .of_row (outerRow frames ++ f.result) l ?_ hResult ?_ hFrames
      · simp [Pass.row, Terms.row]
      · refine ⟨?_, by simp, by simp⟩
        intro p hp
        obtain rfl : l = p := by simpa using hp
        exact opensTerm_of_boundary hKind

theorem Pass.IsLaid.step {s : Pass Lexeme} {l : Lexeme} {rest : List Lexeme}
    (h : s.IsLaid R (l :: rest)) : (s.step l).IsLaid R rest := by
  obtain ⟨frames, current⟩ := s
  simp only [Pass.step, token_lexeme]
  cases hOpens : l.token.opens with
  | true =>
    refine .of_row (outerRow frames ++ current.row) l ?_ h.chain .start ?_
    · simp [Pass.row, outerRow, Terms.row, Terms.start]
    · intro frame hFrame
      rcases List.mem_cons.1 hFrame with rfl | hFrame
      · exact ⟨h.current, hOpens⟩
      · exact h.frames frame hFrame
  | false =>
    cases l.token.closes with
    | false => exact h.leaf hR
    | true =>
      cases frames with
      | nil => exact h.leaf hR
      | cons frame frames =>
        obtain ⟨opening, outer⟩ := frame
        obtain ⟨hOuter, hOpening⟩ := h.frames _ List.mem_cons_self
        have hResult := Terms.isChain_result hR h.current (opensTerm_outerRow h.frames) h.chain
        refine .of_row (outerRow frames ++ outer.row ++ opening :: current.result) l ?_ ?_ ?_
          fun frame hFrame => h.frames frame (List.mem_cons_of_mem _ hFrame)
        · obtain ⟨done, waiting, operand, last⟩ := outer
          cases waiting <;> simp [Pass.row, Terms.row, Terms.group]
        · simpa [outerRow] using hResult
        · refine ⟨hOuter.done, ?_, hOuter.left⟩
          intro m hm
          cases hOperand : outer.operand with
          | nil =>
            obtain rfl : opening = m := by simpa [Terms.group, hOperand] using hm
            cases hToken : opening.token <;> simp_all [Token.opens, beginsTerm, isFactorSign]
          | cons d ds => exact hOuter.operand m (by simpa [Terms.group, hOperand] using hm)

theorem Pass.IsLaid.run {s : Pass Lexeme} {ls : List Lexeme} (h : s.IsLaid R ls) :
    (s.run ls).IsLaid R [] := by
  induction ls generalizing s with
  | nil => exact h
  | cons l ls ih => exact ih (h.step hR)

/-- The lexemes of a divided row sit next to one another as those of the row do. -/
theorem isChain_divided {ls : List Lexeme} (hChain : ls.IsChain R)
    (hFirst : ∀ l ∈ ls.head?, isFactorSign l.token = false)
    (hClosed : (Pass.start.run ls).frames = []) : (divided ls).IsChain R := by
  have hStart : (Pass.start (α := Lexeme)).IsLaid R ls :=
    ⟨hChain, .start, by simp [Pass.start], fun _ => hFirst⟩
  have hEnd := hStart.run hR
  have hRow := hEnd.chain
  have hNone : ∀ p ∈ ([] : List Lexeme).getLast?, opensTerm p.token = true := by simp
  simp only [Pass.row, hClosed, outerRow, List.foldr_nil] at hRow
  have hResult := Terms.isChain_result hR hEnd.current hNone hRow
  simpa [divided] using hResult

end Laid

end DaxMigration.Dax
