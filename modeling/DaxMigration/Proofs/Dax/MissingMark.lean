import DaxMigration.Proofs.Dax.CheckedSplice
import DaxMigration.Proofs.Dax.References
import DaxMigration.Proofs.Formula.Trailing
import DaxMigration.Proofs.Formula.Unclosed

/-!
# Missing marks

A bare field is written anew from its name, and a text in single quotes from its content. So where
one of them stands last and is not closed, the conversion closes it: it goes as if the mark stood
there, up to the verdict, which is taken on the text that was written.
-/

namespace DaxMigration.Dax

open Formula Text

variable {t : Target} {ls : List Lexeme} {l : Lexeme}

/-! ## Splicing in front of a literal -/

theorem replaceFrom_concat {cursor : Nat} {rs : List Replacement} (hCursor : cursor ≤ ls.length)
    (h : Ordered ls.length cursor (rs.map (·.span))) :
    replaceFrom (ls ++ [l]) cursor rs = replaceFrom ls cursor rs ++ [l] := by
  induction rs generalizing cursor with
  | nil => rw [replaceFrom, replaceFrom, List.drop_append_of_le_length hCursor]
  | cons r rs ih =>
    obtain ⟨_, hStop, hLength, hRest⟩ := h
    rw [replaceFrom, replaceFrom, ih hLength hRest,
      slice_append_left (s := ⟨cursor, r.span.start⟩) (hStop.le.trans hLength)]
    simp

/-- A lexeme behind all constructs stays where it is. -/
theorem splicing_concat {β : Type} {bs : List β} {convert convert' : β → Splicing Replacement}
    (span : β → Span) (hConvert : ∀ b ∈ bs, convert' b = convert b)
    (hSpan : ∀ b ∈ bs, ∀ r, Gives (convert b) r → r.span = span b)
    (hOrdered : Ordered ls.length 0 (bs.map span)) :
    (bs.mapM convert' >>= fun rs => pure (replaceSpans (ls ++ [l]) rs)) =
      (· ++ [l]) <$> (bs.mapM convert >>= fun rs => pure (replaceSpans ls rs)) := by
  rw [mapM_congr hConvert, map_bind]
  refine bind_congr_of_gives fun rs hRs => ?_
  rw [replaceSpans, replaceFrom_concat (Nat.zero_le _) (spans_of_gives_mapM hRs hSpan ▸ hOrdered)]
  rfl

theorem verbatim_concat {span : Span} (h : span.start < ls.length) (text : List Char) :
    Replacement.verbatim (ls ++ [l]) span text = Replacement.verbatim ls span text := by
  rw [Replacement.verbatim, Replacement.verbatim, List.getElem?_append_left h]

theorem convertTableCalc_concat {argument : Span → Splicing (List Char)} {call : Call}
    (h : ∀ s ∈ call.args, s.stop ≤ ls.length) :
    convertTableCalc t (ls ++ [l]) argument call = convertTableCalc t ls argument call := by
  obtain ⟨span, name, args⟩ := call
  unfold convertTableCalc
  simp only at h ⊢
  cases Formula.TableCalc.ofName? name with
  | none => rfl
  | some function =>
    simp only
    split
    · rfl
    split
    · rfl
    split
    · rename_i expression order _ _
      obtain ⟨-, hOrder⟩ := List.forall_mem_cons.1 h
      have hSame : order.any (asksAscending (ls ++ [l])) = order.any (asksAscending ls) := by
        rw [Bool.eq_iff_iff, List.any_eq_true, List.any_eq_true]
        refine exists_congr fun s => and_congr_right fun hs => ?_
        rw [asksAscending, asksAscending, slice_append_left (hOrder s hs)]
      rw [hSame]
    all_goals rfl

theorem spliceConditionals_concat (hLiteral : l.token.isLiteral = true) (room : Nat) :
    spliceConditionals t room (ls ++ [l]) = (· ++ [l]) <$> spliceConditionals t room ls := by
  cases room with
  | zero => rfl
  | succ room =>
    rw [spliceConditionals, spliceConditionals, conditionals_concat hLiteral]
    refine splicing_concat Conditional.span (fun c hc => ?_) (fun c hc r hr => ?_)
      (ordered_of_foundAt (fun i c hFound => (bounded_of_conditionalAt hFound).located) _)
    · obtain ⟨i, -, hFound⟩ := found_of_mem_outermost hc
      have hBounded := bounded_of_conditionalAt hFound
      simp only [verbatim_concat hBounded.located.start_lt]
      refine congrArg (· >>= _) (convertConditional_congr fun s hs => ?_)
      rw [slice_append_left (hBounded.parts s hs).within.2]
    · obtain ⟨text, -, hr⟩ := hr.of_bind
      rw [gives_pure_iff.1 hr]
      rfl

theorem spliceTableCalcs_concat (hLiteral : l.token.isLiteral = true) (room : Nat) :
    spliceTableCalcs t room (ls ++ [l]) = (· ++ [l]) <$> spliceTableCalcs t room ls := by
  cases room with
  | zero => rfl
  | succ room =>
    rw [spliceTableCalcs, spliceTableCalcs]
    simp only [calls_concat hLiteral]
    refine splicing_concat Call.span (fun c hc => ?_) (fun c hc r hr => ?_)
      (ordered_of_foundAt (fun i c hFound => (bounded_of_callAt hFound).located) _)
    · obtain ⟨i, -, hFound⟩ := found_of_mem_outermost hc
      have hBounded := bounded_of_callAt hFound
      obtain ⟨opening, hNext, hParen, -⟩ := parens_of_callAt hFound
      rw [convertTableCalc_concat fun s hs => (hBounded.args s hs).within.2]
      rw [convertTableCalc_congr fun s hs => ?_]
      · refine bind_congr fun result => ?_
        cases result with
        | some text => simp only [verbatim_concat hBounded.located.start_lt]
        | none =>
          have hOpening : (nextSignificant ls (c.span.start + 1)).getD (c.span.start + 1) = opening := by
            rw [hBounded.located.start, hNext]
            rfl
          have hFront : opening + 1 ≤ ls.length := lt_length_of_tokenAt hParen
          have hNext : nextSignificant (ls ++ [l]) (c.span.start + 1) = some opening := by
            rw [hBounded.located.start]
            exact nextSignificant_concat hNext
          have hStop := hBounded.located.within
          simp only [hOpening, hNext, Option.getD_some, slice_append_left (s := ⟨c.span.start, _⟩) hFront,
            slice_append_left (s := ⟨opening + 1, c.span.stop - 1⟩) ((Nat.sub_le _ _).trans hStop),
            slice_append_left (s := ⟨c.span.stop - 1, c.span.stop⟩) hStop]
      · rw [slice_append_left (hBounded.args s hs).within.2]
    · obtain ⟨result, -, hr⟩ := hr.of_bind
      cases result with
      | some text =>
        rw [gives_pure_iff.1 hr]
        rfl
      | none =>
        obtain ⟨inner, -, hr⟩ := hr.of_bind
        rw [gives_pure_iff.1 hr]

theorem convertLod_concat {inner : List Char} {b : LodBlock}
    (h : ∀ d ∈ b.dimensions, d.stop ≤ ls.length) :
    convertLod t (ls ++ [l]) inner b = convertLod t ls inner b := by
  have hNames : b.dimensions.map (fun d => t.column (dimensionName (ls ++ [l]) d)) =
      b.dimensions.map fun d => t.column (dimensionName ls d) :=
    List.map_congr_left fun d hd => by rw [dimensionName_concat (h d hd)]
  rw [convertLod, convertLod, hNames]

theorem spliceLods_concat (hLiteral : l.token.isLiteral = true) (room : Nat) :
    spliceLods t room (ls ++ [l]) = (· ++ [l]) <$> spliceLods t room ls := by
  cases room with
  | zero => rfl
  | succ room =>
    rw [spliceLods, spliceLods, lodBlocks_concat hLiteral]
    refine splicing_concat LodBlock.span (fun b hb => ?_) (fun b hb r hr => ?_)
      (ordered_of_foundAt (fun i b hFound => (bounded_of_lodAt hFound).located) _)
    · obtain ⟨i, -, hFound⟩ := found_of_mem_outermost hb
      have hBounded := bounded_of_lodAt hFound
      simp only [slice_append_left hBounded.inner.within.2,
        convertLod_concat fun d hd => (hBounded.dimensions d hd).2,
        verbatim_concat hBounded.located.start_lt]
    · obtain ⟨_, -, hr⟩ := hr.of_bind
      obtain ⟨_, -, hr⟩ := hr.of_bind
      obtain ⟨_, -, hr⟩ := hr.of_bind
      obtain ⟨_, -, hr⟩ := hr.of_bind
      obtain ⟨text, -, hr⟩ := hr.of_bind
      rw [gives_pure_iff.1 hr]
      rfl

/-! ## Table names at the end -/

theorem EndsBare.append {a b : List Lexeme} (hb : EndsBare b) (ha : b = [] → EndsBare a) :
    EndsBare (a ++ b) := by
  cases b with
  | nil =>
    rw [List.append_nil]
    exact ha rfl
  | cons m b =>
    intro p hp
    rw [List.map_append, List.getLast?_append, Option.mem_def, List.map_cons, List.getLast?_cons,
      Option.some_or] at hp
    refine hb p ?_
    rwa [Option.mem_def, List.map_cons, List.getLast?_cons]

theorem EndsBare.drop (h : EndsBare ls) (n : Nat) : EndsBare (ls.drop n) := by
  intro p hp
  rw [List.map_drop, List.getLast?_drop] at hp
  split at hp
  · cases hp
  · exact h p hp

theorem endsBare_replaceFrom (h : EndsBare ls) {cursor : Nat} {rs : List Replacement}
    (hMade : ∀ r ∈ rs, r.lexemes ≠ [] ∧ EndsBare r.lexemes) :
    EndsBare (replaceFrom ls cursor rs) := by
  induction rs generalizing cursor with
  | nil => exact h.drop cursor
  | cons r rs ih =>
    obtain ⟨⟨hFilled, hBare⟩, hRest⟩ := List.forall_mem_cons.1 hMade
    exact (ih hRest).append fun _ => hBare.append fun hEmpty => absurd hEmpty hFilled

theorem endsBare_of_splicing {β : Type} {bs : List β} {convert : β → Splicing Replacement}
    {ls' : List Lexeme} (h : Gives (do return replaceSpans ls (← bs.mapM convert)) ls')
    (hMade : ∀ b ∈ bs, ∀ r, Gives (convert b) r → r.lexemes ≠ [] ∧ EndsBare r.lexemes)
    (hBare : EndsBare ls) : EndsBare ls' := by
  obtain ⟨rs, hRs, hResult⟩ := h.of_bind
  rw [gives_pure_iff.1 hResult]
  have hEach := forall₂_imp_mem hRs.of_mapM hMade
  refine endsBare_replaceFrom hBare ?_
  clear hRs hResult h hMade
  induction hEach with
  | nil => simp
  | cons hFirst _ ih => exact List.forall_mem_cons.2 ⟨hFirst, ih⟩

theorem endsBare_verbatim (span : Span) (text : List Char) :
    (Replacement.verbatim ls span text).lexemes ≠ [] ∧
      EndsBare (Replacement.verbatim ls span text).lexemes := by
  simp [Replacement.verbatim, EndsBare, Lexeme.verbatim, isTableName]

theorem endsBare_spliceConditionals {room : Nat} {ls' : List Lexeme}
    (h : Gives (spliceConditionals t room ls) ls') (hBare : EndsBare ls) : EndsBare ls' := by
  cases room with
  | zero => exact absurd h (not_gives_failure _)
  | succ room =>
    refine endsBare_of_splicing h (fun c hc r hr => ?_) hBare
    obtain ⟨text, -, hr⟩ := hr.of_bind
    rw [gives_pure_iff.1 hr]
    exact endsBare_verbatim _ _

theorem endsBare_spliceTableCalcs {room : Nat} {ls' : List Lexeme}
    (h : Gives (spliceTableCalcs t room ls) ls') (hBare : EndsBare ls) : EndsBare ls' := by
  cases room with
  | zero => exact absurd h (not_gives_failure _)
  | succ room =>
    refine endsBare_of_splicing h (fun c hc r hr => ?_) hBare
    obtain ⟨i, -, hFound⟩ := found_of_mem_outermost hc
    obtain ⟨opening, -, -, hClosing⟩ := parens_of_callAt hFound
    have hLocated := (bounded_of_callAt hFound).located
    obtain ⟨result, -, hr⟩ := hr.of_bind
    cases result with
    | some text =>
      rw [gives_pure_iff.1 hr]
      exact endsBare_verbatim _ _
    | none =>
      obtain ⟨inner, -, hr⟩ := hr.of_bind
      rw [gives_pure_iff.1 hr]
      obtain ⟨closing, hToken, hAt⟩ := drop_eq_cons_of_tokenAt hClosing
      have hStop : c.span.stop - 1 + 1 = c.span.stop :=
        Nat.sub_add_cancel (lt_of_le_of_lt (Nat.zero_le i) hLocated.advances)
      have hLast : (Span.mk (c.span.stop - 1) c.span.stop).slice ls = [closing] := by
        have hSlice := slice_of_drop (a := [closing]) hAt
        rwa [List.length_singleton, hStop] at hSlice
      rw [hLast]
      refine ⟨by simp, EndsBare.append ?_ (by simp)⟩
      simp [EndsBare, hToken, isTableName]

theorem endsBare_spliceLods {room : Nat} {ls' : List Lexeme}
    (h : Gives (spliceLods t room ls) ls') (hBare : EndsBare ls) : EndsBare ls' := by
  cases room with
  | zero => exact absurd h (not_gives_failure _)
  | succ room =>
    refine endsBare_of_splicing h (fun b hb r hr => ?_) hBare
    obtain ⟨_, -, hr⟩ := hr.of_bind
    obtain ⟨_, -, hr⟩ := hr.of_bind
    obtain ⟨_, -, hr⟩ := hr.of_bind
    obtain ⟨_, -, hr⟩ := hr.of_bind
    obtain ⟨text, -, hr⟩ := hr.of_bind
    rw [gives_pure_iff.1 hr]
    exact endsBare_verbatim _ _

/-! ## Literals written anew -/

/-- Behind the row, the lexeme is written anew: it is text in single quotes, or a field without a
table name directly in front of it. -/
structure Rewritten (ls : List Lexeme) (l : Lexeme) : Prop where
  kind : (∃ s, l.token = .singleQuoted s) ∨ ∃ name, l.token = .field name
  bare : l.token.isField = true → l.isAttached = true → EndsBare ls

theorem Rewritten.isLiteral (h : Rewritten ls l) : l.token.isLiteral = true := by
  rcases h.kind with ⟨s, hToken⟩ | ⟨name, hToken⟩ <;> rw [hToken] <;> rfl

theorem mapFunctions_concat (hLiteral : l.token.isLiteral = true) :
    mapFunctions t (ls ++ [l]) = mapFunctions t ls ++ [l] := by
  induction ls with
  | nil =>
    obtain ⟨token, text, leading⟩ := l
    cases token <;> rfl
  | cons m ls ih =>
    rw [List.cons_append, mapFunctions, mapFunctions, calledName?, calledName?,
      followedByParen_concat hLiteral, ih]
    split <;> rfl

theorem unsupportedCalls_concat (hLiteral : l.token.isLiteral = true) :
    unsupportedCalls t (ls ++ [l]) = unsupportedCalls t ls := by
  rw [unsupportedCalls_eq, unsupportedCalls_eq, calledNames_concat hLiteral]

theorem map_token_mapFunctions (ls : List Lexeme) :
    (mapFunctions t ls).map Lexeme.token = ls.map Lexeme.token := by
  induction ls with
  | nil => rfl
  | cons m ls ih =>
    rw [mapFunctions]
    split <;> rw [List.map_cons, List.map_cons, ih]

theorem Rewritten.mapFunctions (h : Rewritten ls l) : Rewritten (mapFunctions t ls) l where
  kind := h.kind
  bare hField hAttached := by
    rw [EndsBare, map_token_mapFunctions]
    exact h.bare hField hAttached

/-- Spelling and qualification do not see how a literal was written that they write anew. -/
theorem qualify_normalize_concat (hKind : (∃ s, l.token = .singleQuoted s) ∨ ∃ name, l.token = .field name)
    (text : List Char) {previous : Option Token}
    (hBare : l.token.isField = true → l.isAttached = true →
      ∀ p ∈ (ls.map Lexeme.token).getLast?.or previous, isTableName p = false) :
    qualify t previous (normalize (ls ++ [l])) =
      qualify t previous (normalize (ls ++ [{ l with text }])) := by
  induction ls generalizing previous with
  | nil =>
    obtain ⟨token, old, leading⟩ := l
    rcases hKind with ⟨s, rfl⟩ | ⟨name, rfl⟩
    · rfl
    · have hNone : (Lexeme.isAttached ⟨.field name, old, leading⟩ && previous.any isTableName) = false := by
        cases hAttached : Lexeme.isAttached ⟨.field name, old, leading⟩ with
        | false => rfl
        | true =>
          cases previous with
          | none => rfl
          | some p => exact hBare rfl hAttached p rfl
      have hNone' : (Lexeme.isAttached ⟨.field name, text, leading⟩ && previous.any isTableName) = false :=
        hNone
      simp only [List.nil_append, normalize, qualify, hNone, hNone']
      rfl
  | cons m ls ih =>
    have hNames : namesTable (ls ++ [{ l with text }]) = namesTable (ls ++ [l]) := by
      cases ls <;> rfl
    obtain ⟨x, hToken, hRest⟩ := normalize_cons m (namesTable (ls ++ [l]))
    rw [List.cons_append, List.cons_append, hRest _ rfl, hRest _ hNames, qualify, qualify]
    refine congrArg (_ :: ·) (ih fun hField hAttached p hp => ?_)
    have hLast := hBare hField hAttached
    rw [List.map_cons, getLast?_cons_or] at hLast
    cases hTokens : (ls.map Lexeme.token).getLast? with
    | some q =>
      rw [hTokens] at hp hLast
      exact hLast p hp
    | none =>
      rw [hTokens] at hp hLast
      obtain rfl : x.token = p := Option.some.inj hp
      rcases hToken with hSame | ⟨hPlain, -⟩
      · rw [hSame]
        exact hLast _ rfl
      · exact hPlain

theorem Rewritten.qualify_normalize (h : Rewritten ls l) (text : List Char) :
    qualify t none (normalize (ls ++ [l])) = qualify t none (normalize (ls ++ [{ l with text }])) := by
  refine qualify_normalize_concat h.kind text fun hField hAttached p hp => ?_
  rw [Option.or_none] at hp
  exact h.bare hField hAttached p hp

theorem Rewritten.qualified (h : Rewritten ls l) (text : List Char) :
    qualified t (ls ++ [l]) = qualified t (ls ++ [{ l with text }]) := by
  rw [Dax.qualified, Dax.qualified, h.qualify_normalize]

theorem Rewritten.standardRemarked (h : Rewritten ls l) (text : List Char) :
    standardRemarked t (ls ++ [l]) = standardRemarked t (ls ++ [{ l with text }]) := by
  have hLiteral := h.isLiteral
  have hStandard : standard t (ls ++ [l]) = standard t (ls ++ [{ l with text }]) := by
    rw [standard, standard, mapFunctions_concat hLiteral,
      mapFunctions_concat (l := { l with text }) hLiteral, h.mapFunctions.qualify_normalize]
  rw [Dax.standardRemarked, Dax.standardRemarked, unsupportedCalls_concat hLiteral,
    unsupportedCalls_concat (l := { l with text }) hLiteral, hStandard]

/-! ## Whole formulas -/

theorem Rewritten.daxText (h : Rewritten ls l) (text : List Char) (kind : Kind) :
    daxText t kind (ls ++ [l]) = daxText t kind (ls ++ [{ l with text }]) := by
  have hLiteral := h.isLiteral
  have hLiteral' : Token.isLiteral { l with text }.token = true := hLiteral
  cases kind with
  | standard => exact h.standardRemarked text
  | conditional form =>
    simp only [Dax.daxText, spliceConditionals_concat hLiteral, spliceConditionals_concat hLiteral',
      bind_map_left]
    refine bind_congr_of_gives fun ls' hls' => ?_
    have h' : Rewritten ls' l :=
      ⟨h.kind, fun hField hAttached => endsBare_spliceConditionals hls' (h.bare hField hAttached)⟩
    rw [h'.qualified]
  | tableCalc function =>
    simp only [Dax.daxText, spliceTableCalcs_concat hLiteral, spliceTableCalcs_concat hLiteral',
      bind_map_left]
    refine bind_congr_of_gives fun ls' hls' => ?_
    have h' : Rewritten ls' l :=
      ⟨h.kind, fun hField hAttached => endsBare_spliceTableCalcs hls' (h.bare hField hAttached)⟩
    exact h'.standardRemarked text
  | lod keyword dimensions inner =>
    simp only [Dax.daxText, spliceLods_concat hLiteral, spliceLods_concat hLiteral',
      spliceConditionals_concat hLiteral, spliceConditionals_concat hLiteral',
      spliceTableCalcs_concat hLiteral, spliceTableCalcs_concat hLiteral', bind_map_left]
    refine bind_congr_of_gives fun lods hLods => ?_
    refine bind_congr_of_gives fun conditionals hConditionals => ?_
    refine bind_congr_of_gives fun tableCalcs hTableCalcs => ?_
    have h' : Rewritten tableCalcs l := by
      refine ⟨h.kind, fun hField hAttached => ?_⟩
      have hFirst := endsBare_spliceLods hLods (h.bare hField hAttached)
      exact endsBare_spliceTableCalcs hTableCalcs (endsBare_spliceConditionals hConditionals hFirst)
    exact h'.standardRemarked text

theorem facts_concat (hLiteral : l.token.isLiteral = true) (text : List Char) :
    facts (ls ++ [{ l with text }]) = facts (ls ++ [l]) := by
  have hSame : ∀ f : Token → Option (List Char),
      (ls ++ [{ l with text }]).filterMap (fun m : Lexeme => f m.token) =
        (ls ++ [l]).filterMap (fun m : Lexeme => f m.token) := by
    intro f
    rw [List.filterMap_append, List.filterMap_append]
    rfl
  rw [facts, facts, calledNames_concat hLiteral, calledNames_concat (l := { l with text }) hLiteral,
    hSame, hSame, hSame]

/-- Where the last literal is not closed but written anew, the conversion is that of the formula
with the mark: whatever the dialect, nothing tells that it was missing. -/
theorem attempt_append_mark {formula : List Char} {q : Char} (hSplit : tokenize formula = ls ++ [l])
    (hOpen : Unclosed q l) (h : Rewritten ls l) :
    attempt t (formula ++ [q]) = attempt t formula := by
  have hLiteral := h.isLiteral
  have hClosed := tokenize_append_mark hSplit hOpen
  have hBlank : allBlank formula = false := allBlank_of_tokenize (by simp [hSplit])
  have hBlank' : allBlank (formula ++ [q]) = false := allBlank_of_tokenize (by simp [hClosed])
  have hKind : classify (ls ++ [l.push q]) = classify (ls ++ [l]) := by
    rw [classify_concat (l := l.push q) hLiteral, classify_concat hLiteral]
  have hFacts : facts (ls ++ [l.push q]) = facts (ls ++ [l]) := facts_concat hLiteral _
  have hText : daxText t (classify (ls ++ [l])) (ls ++ [l.push q]) =
      daxText t (classify (ls ++ [l])) (ls ++ [l]) := (h.daxText _ _).symm
  simp only [attempt, hBlank, hBlank', hSplit, hClosed, hKind, hFacts, hText]

end DaxMigration.Dax
