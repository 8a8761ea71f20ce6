import DaxMigration.Dax.Conversion
import Mathlib.Data.List.Forall2

/-!
# Results of splicing

A conversion that succeeds with a certain result whatever was remarked before, and one that can have
a certain result. The remarks themselves are left open.
-/

namespace DaxMigration.Dax

open Formula

variable {β γ : Type}

/-- The conversion has the result `b`, after any remarks. -/
def Returns (m : Splicing β) (b : β) : Prop :=
  ∀ remarks, ∃ more, m.run remarks = some (b, more)

theorem returns_pure (b : β) : Returns (pure b) b :=
  fun remarks => ⟨remarks, rfl⟩

theorem returns_remark (r : Remark) : Returns (remark r) () :=
  fun _ => ⟨_, rfl⟩

theorem Returns.bind {m : Splicing β} {b : β} {f : β → Splicing γ} {c : γ} (hFirst : Returns m b)
    (hSecond : Returns (f b) c) : Returns (m >>= f) c := by
  intro remarks
  obtain ⟨more, hMore⟩ := hFirst remarks
  obtain ⟨last, hLast⟩ := hSecond more
  refine ⟨last, ?_⟩
  rw [StateT.run_bind, hMore]
  exact hLast

theorem Returns.map {m : Splicing β} {b : β} (h : Returns m b) (f : β → γ) :
    Returns (f <$> m) (f b) := by
  rw [map_eq_pure_bind]
  exact h.bind (returns_pure (f b))

theorem returns_mapM_singleton {f : β → Splicing γ} {b : β} {c : γ} (h : Returns (f b) c) :
    Returns ([b].mapM f) [c] := by
  rw [List.mapM_cons]
  exact h.bind ((returns_pure []).bind (returns_pure [c]))

/-- A row without conditionals stays as it is where conditionals are spliced. -/
theorem returns_spliceConditionals_of_none {t : Target} {room : Nat} {ls : List Lexeme}
    (hNone : conditionals ls = []) : Returns (spliceConditionals t (room + 1) ls) ls := by
  rw [spliceConditionals, hNone]
  exact (returns_pure []).bind (returns_pure ls)

/-! ## Possible results -/

/-- The conversion has the result `b` after some remarks. -/
def Gives (m : Splicing β) (b : β) : Prop :=
  ∃ remarks more, m.run remarks = some (b, more)

theorem gives_pure_iff {b c : β} : Gives (pure b) c ↔ c = b := by
  constructor
  · rintro ⟨remarks, more, h⟩
    cases h
    rfl
  · rintro rfl
    exact ⟨[], [], rfl⟩

theorem Returns.gives_iff {m : Splicing β} {b c : β} (h : Returns m b) : Gives m c ↔ c = b := by
  constructor
  · rintro ⟨remarks, more, hRun⟩
    obtain ⟨last, hLast⟩ := h remarks
    rw [hLast] at hRun
    cases hRun
    rfl
  · rintro rfl
    obtain ⟨last, hLast⟩ := h []
    exact ⟨[], last, hLast⟩

theorem gives_of_run {m : Splicing β} {b : β} (h : (m.run []).map Prod.fst = some b) : Gives m b := by
  obtain ⟨⟨b', more⟩, hRun, rfl⟩ := Option.map_eq_some_iff.1 h
  exact ⟨[], more, hRun⟩

theorem not_gives_failure (b : β) : ¬Gives failure b := by
  rintro ⟨remarks, more, h⟩
  cases h

theorem Gives.of_bind {m : Splicing β} {f : β → Splicing γ} {c : γ} (h : Gives (m >>= f) c) :
    ∃ b, Gives m b ∧ Gives (f b) c := by
  obtain ⟨remarks, last, h⟩ := h
  rw [StateT.run_bind] at h
  obtain ⟨⟨b, more⟩, hFirst, hSecond⟩ := Option.bind_eq_some_iff.1 h
  exact ⟨b, ⟨remarks, more, hFirst⟩, more, last, hSecond⟩

theorem Gives.of_map {m : Splicing β} {f : β → γ} {c : γ} (h : Gives (f <$> m) c) :
    ∃ b, Gives m b ∧ c = f b := by
  rw [map_eq_pure_bind] at h
  obtain ⟨b, hFirst, hSecond⟩ := h.of_bind
  exact ⟨b, hFirst, gives_pure_iff.1 hSecond⟩

theorem Gives.of_mapM {f : β → Splicing γ} {bs : List β} {cs : List γ} (h : Gives (bs.mapM f) cs) :
    List.Forall₂ (fun b c => Gives (f b) c) bs cs := by
  induction bs generalizing cs with
  | nil =>
    rw [List.mapM_nil] at h
    rw [gives_pure_iff.1 h]
    exact .nil
  | cons b bs ih =>
    rw [List.mapM_cons] at h
    obtain ⟨c, hFirst, h⟩ := h.of_bind
    obtain ⟨rest, hRest, h⟩ := h.of_bind
    rw [gives_pure_iff.1 h]
    exact .cons hFirst (ih hRest)

theorem bind_congr_of_gives {m : Splicing β} {f g : β → Splicing γ}
    (h : ∀ b, Gives m b → f b = g b) : m >>= f = m >>= g := by
  refine StateT.ext fun remarks => ?_
  rw [StateT.run_bind, StateT.run_bind]
  cases hRun : m.run remarks with
  | none => rfl
  | some result => exact congrArg (StateT.run · result.2) (h result.1 ⟨remarks, result.2, hRun⟩)

theorem mapM_congr {bs : List β} {f g : β → Splicing γ} (h : ∀ b ∈ bs, f b = g b) :
    bs.mapM f = bs.mapM g := by
  induction bs with
  | nil => rfl
  | cons b bs ih =>
    obtain ⟨hFirst, hRest⟩ := List.forall_mem_cons.1 h
    rw [List.mapM_cons, List.mapM_cons, hFirst, ih hRest]

/-! ## Names that are called -/

theorem exists_of_mem_calledNames {ls : List Lexeme} {name : List Char}
    (h : name ∈ calledNames ls) : ∃ l ∈ ls, l.token = .identifier name := by
  induction ls with
  | nil => cases h
  | cons l ls ih =>
    have hLater : name ∈ calledNames ls → ∃ m ∈ l :: ls, m.token = .identifier name := fun hMem =>
      (ih hMem).imp fun m hm => ⟨List.mem_cons_of_mem l hm.1, hm.2⟩
    rw [calledNames] at h
    split at h
    · rename_i called hToken
      split at h
      · rcases List.mem_cons.1 h with rfl | hMem
        · exact ⟨l, List.mem_cons_self, hToken⟩
        · exact hLater hMem
      · exact hLater h
    · exact hLater h

/-- The remarks are on those of the names that the target lacks. -/
theorem unsupportedCalls_eq (t : Target) (ls : List Lexeme) : unsupportedCalls t ls =
    (calledNames ls).filter fun name => (t.function? name).isNone && !isGenerated name := by
  induction ls with
  | nil => rfl
  | cons l ls ih =>
    rw [unsupportedCalls, calledNames, calledName?, ih]
    cases l.token with
    | identifier name => cases followedByParen ls <;> simp [List.filter_cons]
    | _ => rfl

/-! ## Whole formulas -/

/-- A formula that is converted has the text of its kind. -/
theorem run_of_attempt {t : Target} {formula dax : List Char} {kind : Kind} {facts : Facts}
    {remarks : List Remark} (h : attempt t formula = .converted kind facts dax remarks) :
    kind = classify (tokenize formula) ∧ facts = Formula.facts (tokenize formula) ∧
      (daxText t kind (tokenize formula)).run [] = some (dax, remarks) := by
  rw [attempt] at h
  split at h
  · cases h
  simp only at h
  split at h
  · cases h
  rename_i hRun
  cases h
  exact ⟨rfl, rfl, hRun⟩

theorem gives_of_attempt {t : Target} {formula dax : List Char} {kind : Kind} {facts : Facts}
    {remarks : List Remark} (h : attempt t formula = .converted kind facts dax remarks) :
    kind = classify (tokenize formula) ∧ Gives (daxText t kind (tokenize formula)) dax := by
  obtain ⟨hKind, -, hRun⟩ := run_of_attempt h
  exact ⟨hKind, [], remarks, hRun⟩

theorem gives_standardRemarked {t : Target} {ls : List Lexeme} {text : List Char}
    (h : Gives (standardRemarked t ls) text) : text = standard t ls := by
  obtain ⟨_, _, h⟩ := Gives.of_bind h
  exact gives_pure_iff.1 h

/-- A conversion of everything is its text alone. -/
theorem replaceSpans_whole {ls : List Lexeme} {s : Span} (h : s = ⟨0, ls.length⟩)
    (text : List Char) :
    replaceSpans ls [Replacement.verbatim ls s text] =
      [Lexeme.verbatim text ((ls[0]?.map Lexeme.leading).getD [])] := by
  subst h
  simp [replaceSpans, replaceFrom, Replacement.verbatim, Span.slice]

end DaxMigration.Dax
