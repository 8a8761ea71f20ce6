import DaxMigration.Catalogue.Reader
import DaxMigration.Proofs.KeyMap

/-!
# The index of functions and the document

A function is answered with the first entry of the document that has its name in upper case, where
entries are in the order of their categories and then of their names. The index, which is filled from
category to category and takes a name once, finds the same entry as a search through the document.
-/

namespace DaxMigration.Catalogue

open Json

structure FunctionEntry where
  category : String
  name : String
  dax : String
deriving DecidableEq

/-- Categories are in key order, and so are the names of one category. -/
def FunctionEntry.Precedes (a b : FunctionEntry) : Prop :=
  a.category < b.category ∨ a.category = b.category ∧ a.name < b.name

/-- The entry stands in the document, as a text in a category that is an object. -/
def IsListed (document : KeyMap Json) (e : FunctionEntry) : Prop :=
  ∃ members, document.get? e.category = some (.object members) ∧
    members.lookup e.name = some (.string e.dax)

structure IsFirst (document : KeyMap Json) (upperName : String) (e : FunctionEntry) : Prop where
  listed : IsListed document e
  name_eq : upperText e.name = upperName
  first : ∀ other, IsListed document other → upperText other.name = upperName →
    other = e ∨ e.Precedes other

/-- What the larger document lists beyond the smaller one repeats the name of an earlier entry, in
whatever case of letters. -/
structure AddsDuplicates (smaller larger : KeyMap Json) : Prop where
  kept : ∀ e, IsListed smaller e → IsListed larger e
  later : ∀ e, IsListed larger e → ¬ IsListed smaller e →
    ∃ earlier, IsListed smaller earlier ∧ upperText earlier.name = upperText e.name ∧
      earlier.Precedes e

/-! ## The order of entries -/

theorem FunctionEntry.Precedes.trans {a b c : FunctionEntry} (h : a.Precedes b)
    (h' : b.Precedes c) : a.Precedes c := by
  rcases h with hCategory | ⟨hSame, hName⟩
  · rcases h' with hCategory' | ⟨hSame', -⟩
    · exact .inl (hCategory.trans hCategory')
    · exact .inl (hSame' ▸ hCategory)
  · rcases h' with hCategory' | ⟨hSame', hName'⟩
    · exact .inl (hSame ▸ hCategory')
    · exact .inr ⟨hSame.trans hSame', hName.trans hName'⟩

theorem FunctionEntry.Precedes.irrefl (a : FunctionEntry) : ¬ a.Precedes a := by
  rintro (hCategory | ⟨-, hName⟩)
  · exact lt_irrefl _ hCategory
  · exact lt_irrefl _ hName

theorem FunctionEntry.Precedes.asymm {a b : FunctionEntry} (h : a.Precedes b) :
    ¬ b.Precedes a :=
  fun h' => irrefl a (h.trans h')

/-- In a list in order, the first element with a property is the one that comes before all others
with it. -/
theorem find?_eq_some_iff_of_pairwise {l : List FunctionEntry} {p : FunctionEntry → Bool}
    (h : l.Pairwise FunctionEntry.Precedes) {e : FunctionEntry} :
    l.find? p = some e ↔
      e ∈ l ∧ p e ∧ ∀ other ∈ l, p other → other = e ∨ e.Precedes other := by
  induction l with
  | nil => simp
  | cons head l ih =>
    obtain ⟨hHead, hRest⟩ := List.pairwise_cons.1 h
    rw [List.find?_cons]
    split
    · rename_i hFits
      constructor
      · intro hFound
        cases hFound
        refine ⟨List.mem_cons_self, hFits, fun other hOther _ => ?_⟩
        rcases List.mem_cons.1 hOther with rfl | hLater
        · exact .inl rfl
        · exact .inr (hHead other hLater)
      · rintro ⟨hMem, -, hFirst⟩
        rcases List.mem_cons.1 hMem with rfl | hLater
        · rfl
        · rcases hFirst head List.mem_cons_self hFits with rfl | hBefore
          · rfl
          · exact absurd (hHead e hLater) hBefore.asymm
    · rename_i hOther
      rw [ih hRest]
      constructor
      · rintro ⟨hMem, hFits, hFirst⟩
        refine ⟨List.mem_cons_of_mem head hMem, hFits, fun other hIn hFitsToo => ?_⟩
        rcases List.mem_cons.1 hIn with rfl | hLater
        · exact absurd hFitsToo (by simp [hOther])
        · exact hFirst other hLater hFitsToo
      · rintro ⟨hMem, hFits, hFirst⟩
        refine ⟨?_, hFits, fun other hLater => hFirst other (List.mem_cons_of_mem head hLater)⟩
        rcases List.mem_cons.1 hMem with rfl | hLater
        · exact absurd hFits (by simp [hOther])
        · exact hLater

/-! ## The index -/

def functionEntries (functions : KeyMap (KeyMap String)) : List FunctionEntry :=
  functions.entries.flatMap fun (category, names) =>
    names.entries.map fun (name, dax) => ⟨category, name, dax⟩

/-- The index finds what a search from the first entry on finds. -/
theorem function?_eq_find? (c : Catalogue) (name : String) :
    c.function? name =
      ((functionEntries c.functions).find? (upperText ·.name = upperText name)).map (·.dax) := by
  have hIndex : c.functionIndex = (functionEntries c.functions).foldl
      (fun index e => index.insertNew (upperText e.name) e.dax) .empty := by
    simp only [functionIndex, functionEntries, List.foldl_flatMap, List.foldl_map]
  rw [function?, hIndex, KeyMap.get?_foldl_insertNew, KeyMap.get?_empty, Option.none_or]

theorem mem_functionEntries {functions : KeyMap (KeyMap String)} {e : FunctionEntry} :
    e ∈ functionEntries functions ↔
      ∃ names, (e.category, names) ∈ functions.entries ∧ (e.name, e.dax) ∈ names.entries := by
  simp only [functionEntries, List.mem_flatMap, List.mem_map, Prod.exists]
  constructor
  · rintro ⟨category, names, hCategory, name, dax, hName, rfl⟩
    exact ⟨names, hCategory, hName⟩
  · rintro ⟨names, hCategory, hName⟩
    exact ⟨e.category, names, hCategory, e.name, e.dax, hName, rfl⟩

/-- Categories are listed in key order, and so are the names of each of them. -/
theorem pairwise_functionEntries (functions : KeyMap (KeyMap String)) :
    (functionEntries functions).Pairwise FunctionEntry.Precedes := by
  refine List.pairwise_flatMap.2 ⟨fun e _ => ?_, ?_⟩
  · rw [List.pairwise_map]
    exact e.2.ascending.imp fun hLess => .inr ⟨rfl, hLess⟩
  · refine functions.ascending.imp fun {a b} hLess x hx y hy => ?_
    obtain ⟨_, -, rfl⟩ := List.mem_map.1 hx
    obtain ⟨_, -, rfl⟩ := List.mem_map.1 hy
    exact .inl hLess

/-! ## Documents as read -/

theorem exists_of_mem_mapM {α β : Type} {read? : α → Option β} {l : List α} {bs : List β} {b : β}
    (h : l.mapM read? = some bs) (hb : b ∈ bs) : ∃ a ∈ l, read? a = some b := by
  induction l generalizing bs with
  | nil =>
    cases h
    cases hb
  | cons a l ih =>
    rw [List.mapM_cons] at h
    obtain ⟨b', hHead, h⟩ := Option.bind_eq_some_iff.1 h
    obtain ⟨bs', hTail, h⟩ := Option.bind_eq_some_iff.1 h
    cases h
    rcases List.mem_cons.1 hb with rfl | hLater
    · exact ⟨a, List.mem_cons_self, hHead⟩
    · obtain ⟨a', hMem, hRead⟩ := ih hTail hLater
      exact ⟨a', List.mem_cons_of_mem a hMem, hRead⟩

/-- Each value of a map is read from a piece of the text. -/
theorem exists_of_mem_map? {α : Type} {item? : Source → Option α} {s : Source} {m : KeyMap α}
    (h : s.map? item? = some m) {e : String × α} (he : e ∈ m.entries) :
    ∃ piece, item? piece = some e.2 := by
  obtain ⟨members, -, h⟩ := Option.bind_eq_some_iff.1 h
  obtain ⟨entries, hEntries, h⟩ := Option.bind_eq_some_iff.1 h
  cases h
  obtain ⟨member, -, hRead⟩ := exists_of_mem_mapM hEntries (KeyMap.mem_of_mem_ofList he)
  obtain ⟨value, hValue, rfl⟩ := Option.map_eq_some_iff.1 hRead
  exact ⟨member.2, hValue⟩

theorem value?_ne_object (n : NumberLiteral) (members : List (String × Json)) :
    n.value? ≠ some (.object members) := by
  rw [NumberLiteral.value?]
  split_ifs <;> simp

/-- The members of an object are in key order. -/
theorem ascending_of_valueWithin? {room : Nat} {s : Source} {members : List (String × Json)}
    (h : s.valueWithin? room = some (.object members)) : members.Pairwise (·.1 < ·.1) := by
  cases s with
  | null | bool => cases h
  | number literal => exact absurd h (value?_ne_object literal members)
  | string units =>
    obtain ⟨_, -, hValue⟩ := Option.map_eq_some_iff.1 h
    cases hValue
  | array items =>
    rw [Source.valueWithin?] at h
    split at h
    · cases h
    · obtain ⟨_, -, hValue⟩ := Option.map_eq_some_iff.1 h
      cases hValue
  | object written =>
    rw [Source.valueWithin?] at h
    split at h
    · cases h
    · obtain ⟨ms, -, hValue⟩ := Option.map_eq_some_iff.1 h
      cases hValue
      exact (KeyMap.ofList ms).ascending

def NamesAscend (document : KeyMap Json) : Prop :=
  ∀ category members, (category, Json.object members) ∈ document.entries →
    members.Pairwise (·.1 < ·.1)

theorem namesAscend_of_map? {s : Source} {document : KeyMap Json}
    (h : s.map? (Source.valueAt? 1) = some document) : NamesAscend document := by
  intro category members hMember
  obtain ⟨piece, hPiece⟩ := exists_of_mem_map? h hMember
  exact ascending_of_valueWithin? hPiece

/-! ## Entries of a document -/

theorem textOf?_eq_some {j : Json} {text : String} : textOf? j = some text ↔ j = .string text := by
  cases j <;> simp [textOf?]

/-- A category keeps those members that are texts. -/
theorem category?_object {members : List (String × Json)} (h : members.Pairwise (·.1 < ·.1)) :
    category? (.object members) = some (KeyMap.filterMap textOf? ⟨members, h⟩) :=
  congrArg some (KeyMap.ext (KeyMap.entries_ofList (KeyMap.pairwise_filterMap h textOf?)))

theorem exists_of_category?_eq_some {j : Json} {names : KeyMap String}
    (h : category? j = some names) : ∃ members, j = .object members := by
  cases j with
  | object members => exact ⟨members, rfl⟩
  | _ => cases h

variable {document : KeyMap Json}

theorem NamesAscend.mem_functionEntries (h : NamesAscend document) {e : FunctionEntry} :
    e ∈ functionEntries (document.filterMap category?) ↔ IsListed document e := by
  rw [Catalogue.mem_functionEntries, IsListed]
  constructor
  · rintro ⟨names, hCategory, hName⟩
    obtain ⟨_, hValue, hRead⟩ := KeyMap.mem_filterMap.1 hCategory
    obtain ⟨members, rfl⟩ := exists_of_category?_eq_some hRead
    have hNames := h _ members hValue
    cases (category?_object hNames).symm.trans hRead
    obtain ⟨_, hMember, hText⟩ := KeyMap.mem_filterMap.1 hName
    cases textOf?_eq_some.1 hText
    exact ⟨members, KeyMap.get?_eq_some_iff.2 hValue,
      (KeyMap.lookup_eq_some_iff_mem (KeyMap.nodup_keys hNames)).2 hMember⟩
  · rintro ⟨members, hCategory, hName⟩
    have hValue := KeyMap.get?_eq_some_iff.1 hCategory
    have hNames := h _ members hValue
    have hMember := (KeyMap.lookup_eq_some_iff_mem (KeyMap.nodup_keys hNames)).1 hName
    exact ⟨_, KeyMap.mem_filterMap.2 ⟨_, hValue, category?_object hNames⟩,
      KeyMap.mem_filterMap.2 ⟨_, hMember, rfl⟩⟩

/-- A function is answered with the first entry of its name. -/
theorem NamesAscend.function?_eq_some (h : NamesAscend document) {c : Catalogue}
    (hRead : c.functions = document.filterMap category?) {name dax : String} :
    c.function? name = some dax ↔ ∃ e, IsFirst document (upperText name) e ∧ e.dax = dax := by
  rw [function?_eq_find?, hRead, Option.map_eq_some_iff]
  refine exists_congr fun e => and_congr_left fun _ => ?_
  rw [find?_eq_some_iff_of_pairwise (pairwise_functionEntries _)]
  simp only [h.mem_functionEntries, decide_eq_true_eq]
  exact ⟨fun ⟨hListed, hName, hFirst⟩ => ⟨hListed, hName, hFirst⟩,
    fun ⟨hListed, hName, hFirst⟩ => ⟨hListed, hName, hFirst⟩⟩

theorem NamesAscend.function?_eq_none (h : NamesAscend document) {c : Catalogue}
    (hRead : c.functions = document.filterMap category?) {name : String} :
    c.function? name = none ↔ ∀ e, IsListed document e → upperText e.name ≠ upperText name := by
  rw [function?_eq_find?, hRead, Option.map_eq_none_iff, List.find?_eq_none]
  simp only [h.mem_functionEntries, decide_eq_true_eq, ne_eq]

/-! ## Duplicates -/

theorem AddsDuplicates.isFirst_iff {smaller larger : KeyMap Json} (h : AddsDuplicates smaller larger)
    {upperName : String} {e : FunctionEntry} :
    IsFirst larger upperName e ↔ IsFirst smaller upperName e := by
  constructor
  · rintro ⟨hListed, hName, hFirst⟩
    refine ⟨?_, hName, fun other hOther => hFirst other (h.kept other hOther)⟩
    by_contra hNew
    -- an added entry is not the first, for the one it repeats is listed too
    obtain ⟨earlier, hEarlier, hSame, hPrecedes⟩ := h.later e hListed hNew
    rcases hFirst earlier (h.kept earlier hEarlier) (hSame.trans hName) with rfl | hAfter
    · exact hPrecedes.irrefl
    · exact hPrecedes.asymm hAfter
  · rintro ⟨hListed, hName, hFirst⟩
    refine ⟨h.kept e hListed, hName, fun other hOther hOtherName => ?_⟩
    by_cases hOld : IsListed smaller other
    · exact hFirst other hOld hOtherName
    · obtain ⟨earlier, hEarlier, hSame, hPrecedes⟩ := h.later other hOther hOld
      rcases hFirst earlier hEarlier (hSame.trans hOtherName) with rfl | hAfter
      · exact .inr hPrecedes
      · exact .inr (hAfter.trans hPrecedes)

/-- What a document of functions answers. It is read whatever its categories and entries are. A name is
answered with the first entry that has it in upper case, and with none where there is no such entry;
names with the same upper case have the same answer; and a document that only adds duplicates after
the entries they repeat gives the same answers. -/
theorem function?_first {s : Source} {document : KeyMap Json}
    (h : s.map? (Source.valueAt? 1) = some document) :
    (functions? s).isSome ∧ ∀ c : Catalogue, functions? s = some c.functions →
      (∀ name dax, c.function? name = some dax ↔
        ∃ e, IsFirst document (upperText name) e ∧ e.dax = dax) ∧
      (∀ name, c.function? name = none ↔
        ∀ e, IsListed document e → upperText e.name ≠ upperText name) ∧
      (∀ name other, upperText name = upperText other → c.function? name = c.function? other) ∧
      ∀ (s' : Source) (larger : KeyMap Json) (c' : Catalogue),
        s'.map? (Source.valueAt? 1) = some larger → functions? s' = some c'.functions →
        AddsDuplicates document larger → ∀ name, c'.function? name = c.function? name := by
  have hFunctions {s : Source} {document : KeyMap Json}
      (h : s.map? (Source.valueAt? 1) = some document) :
      functions? s = some (document.filterMap category?) := by
    rw [functions?, h]
    rfl
  have hNames := namesAscend_of_map? h
  refine ⟨by rw [hFunctions h]; rfl, fun c hRead => ?_⟩
  have hRead : c.functions = document.filterMap category? :=
    Option.some.inj (hRead.symm.trans (hFunctions h))
  refine ⟨fun name dax => hNames.function?_eq_some hRead, fun name => hNames.function?_eq_none hRead,
    fun name other hSame => by rw [function?, function?, hSame], ?_⟩
  intro s' larger c' h' hRead' hAdds name
  have hRead' : c'.functions = larger.filterMap category? :=
    Option.some.inj (hRead'.symm.trans (hFunctions h'))
  ext dax
  rw [(namesAscend_of_map? h').function?_eq_some hRead',
    hNames.function?_eq_some hRead]
  simp only [hAdds.isFirst_iff]

def unitsOf (text : String) : List StringUnit :=
  text.toList.map .char

/-- Two names with one upper case in one category, a member that is no text, and a category that is no
object. -/
def mixedMembers : List (List StringUnit × Source) :=
  [(unitsOf "text", .object [(unitsOf "straße", .string (unitsOf "ROAD")),
      (unitsOf "STRASSE", .string (unitsOf "STREET"))]),
    (unitsOf "aggregate", .object [(unitsOf "SUM", .string (unitsOf "SUM")),
      (unitsOf "AVG", .bool true)]),
    (unitsOf "note", .string (unitsOf "AVG"))]

def mixedDocument : KeyMap Json :=
  .ofList [("aggregate", .object [("AVG", .bool true), ("SUM", .string "SUM")]),
    ("note", .string "AVG"),
    ("text", .object [("STRASSE", .string "STREET"), ("straße", .string "ROAD")])]

def repeatingMembers : List (List StringUnit × Source) :=
  (unitsOf "window", .object [(unitsOf "Sum", .string (unitsOf "SUMX"))]) :: mixedMembers

def repeatingDocument : KeyMap Json :=
  mixedDocument.insert "window" (.object [("Sum", .string "SUMX")])

def withFunctions (members : List (List StringUnit × Source)) : Catalogue :=
  { Catalogue.builtin with functions := (functions? (.object members)).getD .empty }

theorem map?_mixedMembers :
    (.object mixedMembers : Source).map? (Source.valueAt? 1) = some mixedDocument := by
  rfl

theorem map?_repeatingMembers :
    (.object repeatingMembers : Source).map? (Source.valueAt? 1) = some repeatingDocument := by
  rfl

theorem addsDuplicates_repeating : AddsDuplicates mixedDocument repeatingDocument := by
  have hMixed := namesAscend_of_map? map?_mixedMembers
  have hRepeating := namesAscend_of_map? map?_repeatingMembers
  constructor
  · simp only [← hMixed.mem_functionEntries, ← hRepeating.mem_functionEntries]
    decide +kernel
  · intro e hListed hNew
    refine ⟨⟨"aggregate", "SUM", "SUM"⟩, hMixed.mem_functionEntries.1 (by decide +kernel), ?_⟩
    rw [← hRepeating.mem_functionEntries] at hListed
    rw [← hMixed.mem_functionEntries] at hNew
    have hRepeated : e = ⟨"window", "Sum", "SUMX"⟩ := by
      revert e
      decide +kernel
    rw [hRepeated]
    exact ⟨by decide +kernel, .inl (by decide +kernel)⟩

theorem function?_first_mixed :
    (.object mixedMembers : Source).map? (Source.valueAt? 1) = some mixedDocument ∧
      functions? (.object mixedMembers) = some (withFunctions mixedMembers).functions ∧
      (∃ e, IsFirst mixedDocument (upperText "Straße") e ∧ e.dax = "STREET") ∧
      (∀ e, IsListed mixedDocument e → upperText e.name ≠ upperText "avg") ∧
      ∀ name, (withFunctions repeatingMembers).function? name =
        (withFunctions mixedMembers).function? name := by
  have hRead : functions? (.object mixedMembers) = some (withFunctions mixedMembers).functions := rfl
  obtain ⟨hSome, hNone, -, hDuplicates⟩ := (function?_first map?_mixedMembers).2 _ hRead
  exact ⟨map?_mixedMembers, hRead, (hSome "Straße" "STREET").1 (by decide +kernel),
    (hNone "avg").1 (by decide +kernel),
    hDuplicates (.object repeatingMembers) repeatingDocument _ map?_repeatingMembers rfl
      addsDuplicates_repeating⟩

end DaxMigration.Catalogue
