import DaxMigration.Xml.Reader
import Mathlib.Tactic.Common

/-!
# Which events spell a tree

The events of an element are its tags around those of its content; the events of a document are those
of its root, with nothing before and after that belongs into an element. Building from events gives a
tree exactly where they are those of a document, and then it is the document's.
-/

namespace DaxMigration.Xml

/-! ## Events of elements and of documents -/

mutual

inductive Spells : List Event → Element → Prop
  | empty {name : String} {attributes : List (String × String)} :
    Spells [.empty name attributes] ⟨name, attributes, [], ""⟩
  | tags {name : String} {attributes : List (String × String)} {content : List Event}
      {children : List Element} {pieces : List String} (h : Content content children pieces) :
    Spells (.opening name attributes :: (content ++ [.closing]))
      ⟨name, attributes, children, String.join pieces⟩

/-- The events between two tags, with the child elements and the pieces of text among them. -/
inductive Content : List Event → List Element → List String → Prop
  | nil : Content [] [] []
  | text {piece : String} {rest : List Event} {children : List Element} {pieces : List String}
      (h : Content rest children pieces) : Content (.text piece :: rest) children (piece :: pieces)
  | cdata {piece : String} {rest : List Event} {children : List Element} {pieces : List String}
      (h : Content rest children pieces) : Content (.cdata piece :: rest) children (piece :: pieces)
  | other {rest : List Event} {children : List Element} {pieces : List String}
      (h : Content rest children pieces) : Content (.other :: rest) children pieces
  | child {events rest : List Event} {e : Element} {children : List Element} {pieces : List String}
      (hChild : Spells events e) (h : Content rest children pieces) :
    Content (events ++ rest) (e :: children) pieces

end

/-- What may stand outside the root without a trace. -/
def Event.isIdle : Event → Bool
  | cdata _ | other => true
  | opening _ _ | empty _ _ | closing | text _ => false

def SpellsDocument (events : List Event) (root : Element) : Prop :=
  ∃ before tree after, events = before ++ tree ++ after ∧ Spells tree root ∧
    before.all Event.isIdle = true ∧ after.all Event.isIdle = true

theorem Content.append {events events' : List Event} {children children' : List Element}
    {pieces pieces' : List String} (h : Content events children pieces)
    (h' : Content events' children' pieces') :
    Content (events ++ events') (children ++ children') (pieces ++ pieces') :=
  match h with
  | .nil => h'
  | .text h => .text (h.append h')
  | .cdata h => .cdata (h.append h')
  | .other h => .other (h.append h')
  | .child hChild h => by
    rw [List.append_assoc]
    exact .child hChild (h.append h')

theorem exists_ok_of_bind {ε α β : Type} {act : Except ε α} {next : α → Except ε β} {b : β}
    (h : act >>= next = .ok b) : ∃ a, act = .ok a ∧ next a = .ok b := by
  cases act with
  | error fault => cases h
  | ok a => exact ⟨a, rfl, h⟩

/-! ## Events of a document build its tree -/

namespace Building

def extend (o : OpenElement) (children : List Element) (pieces : List String) : OpenElement :=
  { o with children := children.reverse ++ o.children, pieces := pieces.reverse ++ o.pieces }

theorem foldlM_cons_of_step {b after : Building} {e : Event} (h : b.step e = .ok after)
    (rest : List Event) : (e :: rest).foldlM step b = rest.foldlM step after := by
  rw [List.foldlM_cons, h]
  rfl

theorem foldlM_append_of_ok {b after : Building} {events : List Event}
    (h : events.foldlM step b = .ok after) (rest : List Event) :
    (events ++ rest).foldlM step b = rest.foldlM step after := by
  rw [List.foldlM_append, h]
  rfl

mutual

/-- Whatever has been built before, the events of an element come to attaching it. -/
theorem foldlM_of_spells {events : List Event} {e : Element} (h : Spells events e) (b : Building) :
    events.foldlM step b = b.attach e :=
  match h with
  | .empty => by
    rw [List.foldlM_cons, step]
    exact bind_pure _
  | @Spells.tags name attributes content children pieces h => by
    have hContent := foldlM_of_content h ⟨name, attributes, [], []⟩ b.opened b.root
    have hClosed : (extend ⟨name, attributes, [], []⟩ children pieces).closed =
        ⟨name, attributes, children, String.join pieces⟩ := by
      simp [extend, OpenElement.closed]
    rw [foldlM_cons_of_step rfl, foldlM_append_of_ok hContent, List.foldlM_cons, step]
    simp only [hClosed]
    exact bind_pure _

theorem foldlM_of_content {events : List Event} {children : List Element} {pieces : List String}
    (h : Content events children pieces) (o : OpenElement) (outer : List OpenElement)
    (root : Option Element) :
    events.foldlM step ⟨o :: outer, root⟩ = .ok ⟨extend o children pieces :: outer, root⟩ :=
  match h with
  | .nil => rfl
  | @Content.text piece rest children pieces h => by
    rw [foldlM_cons_of_step rfl, foldlM_of_content h (o.addText piece) outer root]
    simp [extend, OpenElement.addText]
  | @Content.cdata piece rest children pieces h => by
    rw [foldlM_cons_of_step rfl, foldlM_of_content h (o.addText piece) outer root]
    simp [extend, OpenElement.addText]
  | .other h => by
    rw [foldlM_cons_of_step rfl, foldlM_of_content h o outer root]
  | @Content.child events rest e children pieces hChild h => by
    rw [foldlM_append_of_ok (foldlM_of_spells hChild ⟨o :: outer, root⟩),
      foldlM_of_content h (o.addChild e) outer root]
    simp [extend, OpenElement.addChild]

end

theorem foldlM_of_idle {events : List Event} (h : events.all Event.isIdle = true)
    (root : Option Element) : events.foldlM step ⟨[], root⟩ = .ok ⟨[], root⟩ := by
  induction events with
  | nil => rfl
  | cons e rest ih =>
    rw [List.all_cons, Bool.and_eq_true] at h
    obtain ⟨hIdle, hRest⟩ := h
    cases e with
    | cdata piece => exact ih hRest
    | other => exact ih hRest
    | _ => cases hIdle

theorem foldlM_of_spellsDocument {events : List Event} {root : Element}
    (h : SpellsDocument events root) : events.foldlM step {} = .ok ⟨[], some root⟩ := by
  obtain ⟨before, tree, after, rfl, hTree, hBefore, hAfter⟩ := h
  have hRoot : (before ++ tree).foldlM step {} = .ok ⟨[], some root⟩ := by
    rw [foldlM_append_of_ok (foldlM_of_idle hBefore none), foldlM_of_spells hTree]
    rfl
  rw [foldlM_append_of_ok hRoot, foldlM_of_idle hAfter]

/-! ## What has been built was spelled -/

/-- The events since the root began that is not complete: each open element with its content. -/
inductive Pending : List Event → List OpenElement → Prop
  | nil : Pending [] []
  | opened {o : OpenElement} {events content : List Event} {outer : List OpenElement}
      (h : Pending events outer)
      (hContent : Content content o.children.reverse o.pieces.reverse) :
    Pending (events ++ .opening o.name o.attributes :: content) (o :: outer)

def Done (events : List Event) : Option Element → Prop
  | none => events.all Event.isIdle = true
  | some root => SpellsDocument events root

/-- What has been built from these events. A second root may have begun. -/
def Built (events : List Event) (b : Building) : Prop :=
  ∃ done pending, events = done ++ pending ∧ Done done b.root ∧ Pending pending b.opened

theorem Done.idle {events : List Event} {root : Option Element} {e : Event} (h : Done events root)
    (hIdle : e.isIdle = true) : Done (events ++ [e]) root := by
  cases root with
  | none =>
    have hEvents : events.all Event.isIdle = true := h
    simp [Done, List.all_append, hEvents, hIdle]
  | some root =>
    obtain ⟨before, tree, after, rfl, hTree, hBefore, hAfter⟩ := h
    exact ⟨before, tree, after ++ [e], by simp, hTree, hBefore, by simp [hAfter, hIdle]⟩

/-- The innermost open element takes what stands in its content. -/
theorem Built.extend {events more : List Event} {o : OpenElement} {outer : List OpenElement}
    {root : Option Element} {children : List Element} {pieces : List String}
    (h : Built events ⟨o :: outer, root⟩) (hMore : Content more children pieces) :
    Built (events ++ more) ⟨Building.extend o children pieces :: outer, root⟩ := by
  obtain ⟨done, pending, rfl, hDone, hPending⟩ := h
  cases hPending with
  | @opened o events content outer hOuter hContent =>
    have hAll : Content (content ++ more) (Building.extend o children pieces).children.reverse
        (Building.extend o children pieces).pieces.reverse := by
      simpa [Building.extend] using hContent.append hMore
    refine ⟨done, events ++ .opening o.name o.attributes :: (content ++ more), by simp, hDone, ?_⟩
    exact .opened hOuter hAll

theorem Built.attach {events tree : List Event} {b after : Building} {e : Element}
    (h : Built events b) (hTree : Spells tree e) (hAttach : b.attach e = .ok after) :
    Built (events ++ tree) after := by
  obtain ⟨opened, root⟩ := b
  cases opened with
  | cons o outer =>
    cases hAttach
    have hOne : Content tree [e] [] := by simpa using Content.child hTree .nil
    exact h.extend hOne
  | nil =>
    obtain ⟨done, pending, rfl, hDone, hPending⟩ := h
    cases hPending
    cases root with
    | some root => cases hAttach
    | none =>
      cases hAttach
      exact ⟨done ++ tree, [], by simp, ⟨done, tree, [], by simp, hTree, hDone, rfl⟩, .nil⟩

theorem Built.idle {events : List Event} {root : Option Element} {e : Event}
    (h : Built events ⟨[], root⟩) (hIdle : e.isIdle = true) :
    Built (events ++ [e]) ⟨[], root⟩ := by
  obtain ⟨done, pending, rfl, hDone, hPending⟩ := h
  cases hPending with
  | nil => exact ⟨done ++ [e], [], by simp, hDone.idle hIdle, .nil⟩

/-- One more event. -/
theorem Built.step {events : List Event} {b after : Building} {e : Event} (h : Built events b)
    (hStep : b.step e = .ok after) : Built (events ++ [e]) after := by
  obtain ⟨opened, root⟩ := b
  cases e with
  | opening name attributes =>
    cases hStep
    obtain ⟨done, pending, rfl, hDone, hPending⟩ := h
    exact ⟨done, _, by simp, hDone, .opened (o := ⟨name, attributes, [], []⟩) hPending .nil⟩
  | empty name attributes => exact h.attach .empty hStep
  | closing =>
    obtain ⟨done, pending, rfl, hDone, hPending⟩ := h
    cases hPending with
    | nil => cases hStep
    | @opened o events content outer hOuter hContent =>
      -- the element that closes is a child, or the root, of what its first tag stood behind
      have hBefore : Built (done ++ events) ⟨outer, root⟩ := ⟨done, events, rfl, hDone, hOuter⟩
      simpa using hBefore.attach (.tags hContent) hStep
  | text piece =>
    cases opened with
    | nil => cases hStep
    | cons o outer =>
      cases hStep
      exact h.extend (.text .nil)
  | cdata piece =>
    cases opened with
    | nil =>
      cases hStep
      exact h.idle rfl
    | cons o outer =>
      cases hStep
      exact h.extend (.cdata .nil)
  | other =>
    cases hStep
    cases opened with
    | nil => exact h.idle rfl
    | cons o outer => exact h.extend (.other .nil)

theorem Built.foldlM {events more : List Event} {b after : Building} (h : Built events b)
    (hFold : more.foldlM Building.step b = .ok after) : Built (events ++ more) after := by
  induction more generalizing events b with
  | nil =>
    cases hFold
    rwa [List.append_nil]
  | cons e rest ih =>
    rw [List.foldlM_cons] at hFold
    obtain ⟨next, hStep, hRest⟩ := exists_ok_of_bind hFold
    simpa using ih (h.step hStep) hRest

theorem Built.spellsDocument {events : List Event} {b : Building} {root : Element}
    (h : Built events b) (hFinish : b.finish = .ok root) : SpellsDocument events root := by
  obtain ⟨opened, built⟩ := b
  obtain ⟨done, pending, rfl, hDone, hPending⟩ := h
  cases hPending with
  | opened => cases hFinish
  | nil =>
    cases built with
    | none => cases hFinish
    | some built =>
      cases hFinish
      rwa [List.append_nil]

end Building

/-! ## Trees of documents -/

def Reading.spelled (r : Reading) : List Event :=
  r.events.reverse.map (·.2)

theorem ofEvents_iff (events : List Event) (root : Element) :
    Element.ofEvents events = .ok root ↔ SpellsDocument events root := by
  constructor
  · intro h
    obtain ⟨b, hFold, hFinish⟩ := exists_ok_of_bind h
    have hNone : Building.Built [] {} := ⟨[], [], rfl, rfl, .nil⟩
    exact (hNone.foldlM hFold).spellsDocument hFinish
  · intro h
    rw [Element.ofEvents, Building.foldlM_of_spellsDocument h]
    rfl

theorem SpellsDocument.unique {events : List Event} {root root' : Element}
    (h : SpellsDocument events root) (h' : SpellsDocument events root') : root' = root := by
  rw [← ofEvents_iff] at h h'
  exact Except.ok.inj (h'.symm.trans h)

theorem exists_error_iff_not_spells (events : List Event) :
    (∃ fault, Element.ofEvents events = .error fault) ↔ ¬ ∃! root, SpellsDocument events root := by
  constructor
  · rintro ⟨fault, hFault⟩ ⟨root, hRoot, -⟩
    rw [(ofEvents_iff events root).2 hRoot] at hFault
    cases hFault
  · intro h
    cases hTree : Element.ofEvents events with
    | error fault => exact ⟨fault, rfl⟩
    | ok root =>
      have hRoot := (ofEvents_iff events root).1 hTree
      exact absurd ⟨root, hRoot, fun root' hOther => hRoot.unique hOther⟩ h

/-- Positions count for nothing but the report of a fault. -/
theorem buildAt_iff (events : List (Nat × Event)) (b : Building) :
    buildAt events = .ok b ↔ (events.map (·.2)).foldlM Building.step {} = .ok b := by
  unfold buildAt
  generalize ({} : Building) = start
  induction events generalizing start with
  | nil =>
    constructor
    · rintro ⟨⟩
      rfl
    · rintro ⟨⟩
      rfl
  | cons e rest ih =>
    rw [List.map_cons, List.foldlM_cons, List.foldlM_cons]
    cases start.step e.2 with
    | error fault => exact ⟨nofun, nofun⟩
    | ok next => exact ih next

theorem ofReading_iff (reading : Reading) (root : Element) :
    Element.ofReading reading = .ok root ↔
      reading.fault? = none ∧ SpellsDocument reading.spelled root := by
  rw [← ofEvents_iff]
  constructor
  · intro h
    obtain ⟨b, hBuild, hRest⟩ := exists_ok_of_bind h
    rw [Element.ofEvents, Reading.spelled, (buildAt_iff _ b).1 hBuild]
    cases hFault : reading.fault? with
    | some fault =>
      rw [hFault] at hRest
      cases hRest
    | none =>
      refine ⟨rfl, ?_⟩
      rw [hFault] at hRest
      cases hFinish : b.finish with
      | error fault =>
        rw [hFinish] at hRest
        cases hRest
      | ok built =>
        rw [hFinish] at hRest
        cases hRest
        exact hFinish
  · rintro ⟨hFault, h⟩
    obtain ⟨b, hFold, hFinish⟩ := exists_ok_of_bind h
    rw [Element.ofReading, (buildAt_iff _ b).2 hFold]
    simp only [bind, Except.bind, hFault, hFinish]

/-- Building gives a tree exactly of the events of a document, and then the document's; of all other
events it gives a fault. A text has a tree exactly if it can be read to its end and its events are
those of a document. -/
theorem builds_iff_spells :
    (∀ events root, Element.ofEvents events = .ok root ↔ SpellsDocument events root) ∧
      (∀ events, (∃ fault, Element.ofEvents events = .error fault) ↔
        ¬ ∃! root, SpellsDocument events root) ∧
      ∀ reading root, Element.ofReading reading = .ok root ↔
        reading.fault? = none ∧ SpellsDocument reading.spelled root :=
  ⟨ofEvents_iff, exists_error_iff_not_spells, ofReading_iff⟩

/-- Pieces of text are joined around a child, and what is idle is passed over. -/
example :
    Element.ofEvents [.other, .cdata "x", .opening "a" [("k", "v")], .text "p", .empty "b" [], .other,
      .cdata "q", .closing, .other] = .ok ⟨"a", [("k", "v")], [⟨"b", [], [], ""⟩], "pq"⟩ := by
  rfl

end DaxMigration.Xml
