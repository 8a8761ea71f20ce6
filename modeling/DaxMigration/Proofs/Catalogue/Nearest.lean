import DaxMigration.Catalogue.Lookup
import DaxMigration.Proofs.Decimal.Whole
import DaxMigration.Proofs.KeyMap
import DaxMigration.Proofs.Storage.Paths

/-!
# The nearest release

Where majors are whole numbers, a release that is not listed is answered by the listed one whose major
is nearest to its own, the first in key order of several equally near.
-/

namespace DaxMigration.Catalogue

open Decimal

/-! ## Majors -/

/-- What stands in front of the first point, without white space around. -/
def leadingPart (release : String) : List Char :=
  Text.trim (release.toList.takeWhile (· ≠ '.'))

def wholeMajor? (release : String) : Option ℤ :=
  wholeNumber? (leadingPart release)

/-- A release begins with a whole number, or with no number at all. -/
def IsPlain (release : String) : Prop :=
  (wholeMajor? release).isSome ∨ Binary64.ofText? (leadingPart release) = none

instance : DecidablePred IsPlain :=
  fun _ => inferInstanceAs (Decidable (_ ∨ _))

theorem major?_eq (release : String) :
    major? release = Binary64.ofText? (leadingPart release) := by
  obtain ⟨rest, hParts⟩ := @Storage.exists_splitOn_eq_cons '.' release.toList
  rw [major?, hParts, leadingPart]

theorem major?_of_wholeMajor? {release : String} {n : ℤ} (h : wholeMajor? release = some n) :
    |n| < 10 ^ 15 ∧ ∃ x, major? release = some x ∧ x.IsWhole n := by
  rw [major?_eq]
  exact ofText?_of_wholeNumber? h

theorem IsPlain.major?_eq_none {release : String} (h : IsPlain release)
    (hNone : wholeMajor? release = none) : major? release = none := by
  rw [major?_eq]
  exact h.resolve_left (by simp [hNone])

/-! ## The search -/

/-- What the search has found among these entries: the first of those nearest to `n`, with its
distance, or nothing where no entry has a number. -/
inductive Found (n : ℤ) : List (String × ReleaseInfo) → Option (Binary64 × ReleaseInfo) → Prop
  | nothing {entries : List (String × ReleaseInfo)}
      (h : ∀ e ∈ entries, wholeMajor? e.1 = none) : Found n entries none
  | first {before after : List (String × ReleaseInfo)} {key : String} {info : ReleaseInfo} {m : ℤ}
      {distance : Binary64} (hMajor : wholeMajor? key = some m) (hDistance : distance.IsWhole |n - m|)
      (hBefore : ∀ e ∈ before, ∀ m', wholeMajor? e.1 = some m' → |n - m| < |n - m'|)
      (hAfter : ∀ e ∈ after, ∀ m', wholeMajor? e.1 = some m' → |n - m| ≤ |n - m'|) :
    Found n (before ++ (key, info) :: after) (some (distance, info))

variable {n : ℤ} {target : Binary64} {entries : List (String × ReleaseInfo)}
  {best : Option (Binary64 × ReleaseInfo)} {entry : String × ReleaseInfo}

/-- An entry that is no nearer changes nothing. -/
theorem Found.keep {before after : List (String × ReleaseInfo)} {key : String} {info : ReleaseInfo}
    {m : ℤ} {distance : Binary64} (hMajor : wholeMajor? key = some m)
    (hDistance : distance.IsWhole |n - m|)
    (hBefore : ∀ e ∈ before, ∀ m', wholeMajor? e.1 = some m' → |n - m| < |n - m'|)
    (hAfter : ∀ e ∈ after, ∀ m', wholeMajor? e.1 = some m' → |n - m| ≤ |n - m'|)
    (hEntry : ∀ m', wholeMajor? entry.1 = some m' → |n - m| ≤ |n - m'|) :
    Found n ((before ++ (key, info) :: after) ++ [entry]) (some (distance, info)) := by
  rw [List.append_assoc, List.cons_append]
  refine .first hMajor hDistance hBefore fun e he => ?_
  rcases List.mem_append.1 he with he | he
  · exact hAfter e he
  · rw [List.mem_singleton.1 he]
    exact hEntry

/-- One more entry. -/
theorem Found.step (h : Found n entries best) (hTarget : target.IsWhole n) (hSmall : |n| < 10 ^ 15)
    (hPlain : IsPlain entry.1) : Found n (entries ++ [entry]) (nearer target best entry) := by
  cases hEntry : wholeMajor? entry.1 with
  | none =>
    rw [nearer, hPlain.major?_eq_none hEntry]
    cases h with
    | nothing h =>
      refine .nothing fun e he => ?_
      rcases List.mem_append.1 he with he | he
      · exact h e he
      · rw [List.mem_singleton.1 he, hEntry]
    | first hMajor hDistance hBefore hAfter =>
      exact .keep hMajor hDistance hBefore hAfter fun m' hOther => nomatch hEntry.symm.trans hOther
  | some m =>
    obtain ⟨hRange, x, hRead, hWhole⟩ := major?_of_wholeMajor? hEntry
    have hClose : |n - m| < 2 ^ 53 := by
      have hSum := abs_sub n m
      omega
    have hNew : (target.subtract x).magnitude.IsWhole |n - m| :=
      (hTarget.subtract hWhole hClose).magnitude
    rw [nearer, hRead]
    cases h with
    | nothing h => exact .first hEntry hNew (fun e he m' hOther => nomatch (h e he).symm.trans hOther) nofun
    | @first before after key info least distance hMajor hDistance hBefore hAfter =>
      simp only [hNew.less_eq hDistance, decide_eq_true_eq]
      split
      · rename_i hLess
        refine .first hEntry hNew (fun e he m' hOther => ?_) nofun
        rcases List.mem_append.1 he with he | he
        · exact hLess.trans (hBefore e he m' hOther)
        · rcases List.mem_cons.1 he with rfl | he
          · cases hMajor.symm.trans hOther
            exact hLess
          · exact hLess.trans_le (hAfter e he m' hOther)
      · rename_i hNotLess
        refine .keep hMajor hDistance hBefore hAfter fun m' hOther => ?_
        cases hEntry.symm.trans hOther
        exact not_lt.1 hNotLess

theorem Found.of_none (h : Found n entries none) : ∀ e ∈ entries, wholeMajor? e.1 = none := by
  cases h with
  | nothing h => exact h

theorem found_foldl (hTarget : target.IsWhole n) (hSmall : |n| < 10 ^ 15)
    (hPlain : ∀ e ∈ entries, IsPlain e.1) :
    Found n entries (entries.foldl (nearer target) none) := by
  induction entries using List.reverseRecOn with
  | nil => exact .nothing nofun
  | append_singleton entries entry ih =>
    rw [List.foldl_append]
    have hFound := ih fun e he => hPlain e (List.mem_append_left _ he)
    exact hFound.step hTarget hSmall (hPlain entry (by simp))

/-! ## Releases -/

structure IsNearest (table : KeyMap ReleaseInfo) (n : ℤ) (key : String) (m : ℤ) : Prop where
  listed : key ∈ table.keys
  major : wholeMajor? key = some m
  least : ∀ other ∈ table.keys, ∀ m', wholeMajor? other = some m' → |n - m| ≤ |n - m'|
  first : ∀ other ∈ table.keys, ∀ m', wholeMajor? other = some m' → |n - m'| = |n - m| →
    other ≠ key → key < other

theorem Found.isNearest {table : KeyMap ReleaseInfo} {distance : Binary64} {info : ReleaseInfo}
    (h : Found n table.entries (some (distance, info))) :
    ∃ key m, IsNearest table n key m ∧ table.get? key = some info := by
  generalize hEntries : table.entries = entries at h
  cases h with
  | @first before after key info m distance hMajor hDistance hBefore hAfter =>
    have hKeys : table.keys = before.map (·.1) ++ key :: after.map (·.1) := by
      simp [KeyMap.keys, hEntries]
    have hOrder : table.keys.Pairwise (· < ·) := List.pairwise_map.2 table.ascending
    rw [hKeys, List.pairwise_append, List.pairwise_cons] at hOrder
    obtain ⟨-, ⟨hGreater, -⟩, -⟩ := hOrder
    have hCases {P : String → Prop} (hFront : ∀ e ∈ before, P e.1) (hKey : P key)
        (hBack : ∀ e ∈ after, P e.1) : ∀ other ∈ table.keys, P other := by
      rw [hKeys]
      simpa [or_imp, forall_and] using ⟨by simpa using hFront, hKey, by simpa using hBack⟩
    refine ⟨key, m, ⟨?_, hMajor, ?_, ?_⟩, ?_⟩
    · simp [hKeys]
    · refine hCases (fun e he m' hOther => (hBefore e he m' hOther).le) ?_ hAfter
      intro m' hOther
      cases hMajor.symm.trans hOther
      exact le_rfl
    · refine hCases ?_ (fun _ _ _ hOther => absurd rfl hOther) ?_
      · intro e he m' hOther hSame
        exact absurd hSame (hBefore e he m' hOther).ne'
      · intro e he _ _ _ _
        exact hGreater e.1 (List.mem_map_of_mem he)
    · rw [KeyMap.get?_eq_some_iff, hEntries]
      simp

theorem nearest?_cases {c : Catalogue} (hKeys : ∀ key ∈ c.releases.keys, IsPlain key) (hTarget : target.IsWhole n)
    (hSmall : |n| < 10 ^ 15) :
    (c.nearest? target = none ∧ ∀ key ∈ c.releases.keys, wholeMajor? key = none) ∨
      ∃ key m info, c.nearest? target = some info ∧ IsNearest c.releases n key m ∧
        c.releases.get? key = some info := by
  have hPlain : ∀ e ∈ c.releases.entries, IsPlain e.1 :=
    fun e he => hKeys e.1 (List.mem_map_of_mem he)
  have hFound := found_foldl hTarget hSmall hPlain
  rw [nearest?]
  generalize c.releases.entries.foldl (nearer target) none = best at hFound ⊢
  cases best with
  | none =>
    refine .inl ⟨rfl, fun key hKey => ?_⟩
    obtain ⟨e, he, rfl⟩ := List.mem_map.1 hKey
    exact hFound.of_none e he
  | some found =>
    obtain ⟨key, m, hNearest, hInfo⟩ := hFound.isNearest
    exact .inr ⟨key, m, found.2, rfl, hNearest, hInfo⟩

/-- A release that is listed has its own entry. One that is not has the entry of the nearest listed
major, the first in key order of several equally near, if it begins with a number and a listed one
does; and otherwise the entry `default`, or a plain one where there is none. -/
theorem release_nearest {c : Catalogue} {name : String} (hName : IsPlain name)
    (hKeys : ∀ key ∈ c.releases.keys, IsPlain key) :
    (∀ info, c.releases.get? name = some info → c.release name = info) ∧
      (c.releases.get? name = none →
        (∀ n, wholeMajor? name = some n → (∃ key ∈ c.releases.keys, (wholeMajor? key).isSome) →
          ∃ key m, IsNearest c.releases n key m ∧ c.releases.get? key = some (c.release name)) ∧
        (wholeMajor? name = none ∨ (∀ key ∈ c.releases.keys, wholeMajor? key = none) →
          c.release name = (c.releases.get? "default").getD ⟨true, "", []⟩)) := by
  refine ⟨fun info hInfo => by rw [release, hInfo], fun hAbsent => ?_⟩
  have hRelease : c.release name =
      (((major? name).bind c.nearest?).or (c.releases.get? "default")).getD .plain := by
    rw [release, hAbsent]
  rw [hRelease]
  cases hMajor : wholeMajor? name with
  | none =>
    rw [hName.major?_eq_none hMajor]
    exact ⟨nofun, fun _ => rfl⟩
  | some n =>
    obtain ⟨hSmall, target, hRead, hTarget⟩ := major?_of_wholeMajor? hMajor
    rw [hRead, Option.bind_some]
    rcases nearest?_cases hKeys hTarget hSmall with
      ⟨hNearest, hNone⟩ | ⟨key, m, info, hNearest, hKey, hInfo⟩
    · rw [hNearest]
      refine ⟨fun _ _ ⟨key, hKey, hSome⟩ => ?_, fun _ => rfl⟩
      rw [hNone key hKey] at hSome
      cases hSome
    · rw [hNearest]
      refine ⟨fun _ hSame _ => ?_, fun hNone => ?_⟩
      · cases hSame
        exact ⟨key, m, hKey, hInfo⟩
      · rcases hNone with hNone | hNone
        · cases hNone
        · have hMajor := hKey.major
          rw [hNone key hKey.listed] at hMajor
          cases hMajor

/-- Three majors are equally near to 14, one above it and two below. -/
def tiedReleases : KeyMap ReleaseInfo :=
  .ofList [("default", .plain), (" 18 .2", ⟨false, "18.2", []⟩), ("10.5", ⟨true, "10.5", ["maps"]⟩),
    ("+10", ⟨false, "10", []⟩), ("9", .plain)]

theorem release_nearest_tied :
    let c : Catalogue := { Catalogue.builtin with releases := tiedReleases }
    IsPlain "14.3" ∧ (∀ key ∈ c.releases.keys, IsPlain key) ∧
      c.releases.get? "14.3" = none ∧ wholeMajor? "14.3" = some 14 ∧
      ∃ key m, IsNearest c.releases 14 key m ∧ c.releases.get? key = some (c.release "14.3") := by
  intro c
  have hName : IsPlain "14.3" := by decide +kernel
  have hKeys : ∀ key ∈ c.releases.keys, IsPlain key := by decide +kernel
  have hAbsent : c.releases.get? "14.3" = none := by decide +kernel
  have hMajor : wholeMajor? "14.3" = some 14 := by decide +kernel
  exact ⟨hName, hKeys, hAbsent, hMajor,
    ((release_nearest hName hKeys).2 hAbsent).1 14 hMajor ⟨"9", by decide +kernel⟩⟩

end DaxMigration.Catalogue
