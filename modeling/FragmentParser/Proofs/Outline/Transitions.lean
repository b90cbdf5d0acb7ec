import FragmentParser.Proofs.Outline.Steps

/-!
# What a chunk can do in a state

The table of the outline grammar as a relation between a state, a chunk and what it does there. The
rows of `tableRow` have precedence among their entries, which decides between the things that a
chunk could do. Of a chunk that does something it is enough to know that it **may**: `Takes` lists
which constructors it may be taken by, with what their recognizers say of it, and `May` adds when a
frame may stop. What is proved from them does not depend on precedence.

A list frame is over-approximated here: it may start a list of any class, although with stacks as
they are the item inside it does so first.
-/

namespace FragmentParser.Outline

/-- In state `s` the chunk may be taken by a constructor, in a frame of the other state or in a copy
of the current one. -/
inductive Takes (x : String) : State → Maker → Option State → Prop where
  | paragraph {s : State} : s ∈ sectionStates ∨ s = .stateC → Takes x s .paragraph none
  | preformatted {s : State} : s ∈ sectionStates → Takes x s .preformatted none
  | header : Takes x .body .header none
  | section {s : State} : s = .body ∨ s = .stateC → sectionDepth? x.toList = some 1 →
      Takes x s .section (some .section)
  | subsection : sectionDepth? x.toList = some 2 → Takes x .section .subsection (some .subsection)
  | subsubsection : sectionDepth? x.toList = some 3 →
      Takes x .subsection .subsubsection (some .subsubsection)
  | stateA : beginsWith "State A:" x = true → Takes x .body .stateA (some .stateA)
  | stateB : Takes x .stateA .stateB (some .stateB)
  | stateC : Takes x .stateB .stateC (some .stateC)
  | list {s : State} {k : ListClass} : s ∈ sectionStates ∨ s ∈ listStates → itemClass? x = some k →
      Takes x s (listOf k).2 (some (listOf k).1)
  | item {k : ListClass} : itemClass? x = some k →
      Takes x (listOf k).1 .listItem (some .listItem)

/-- In state `s` the transition may be that of the chunk. -/
def May (x : String) (s : State) : Transition Maker State → Prop
  | .construct c s' => Takes x s c s'
  | .stop => s ∉ rootStates
  | .redirect s' => s = .subsection ∧ s' = .body ∧ beginsWith "State A:" x = true

variable {σ : StateStack State} {x : String} {s : State}

theorem isItemOf_iff {k : ListClass} : isItemOf k x = true ↔ itemClass? x = some k := by
  rw [isItemOf, itemClass?]
  cases listStyle? x.toList <;> simp

/-- The entries for list items do as they should if their rules do. -/
theorem may_of_mem_itemEntries {rule : ListClass → Rule Maker State Symbol}
    (hrule : ∀ k, itemClass? x = some k → May x s ((rule k).resolve (itemSymbol k) σ)) :
    ∀ e ∈ itemEntries rule, e.2.1 x = true → May x s (e.2.2.resolve e.1 σ) := by
  intro e he hx
  simp only [itemEntries, List.mem_cons, List.not_mem_nil, or_false] at he
  rcases he with rfl | rfl | rfl <;> exact hrule _ (isItemOf_iff.1 hx)

theorem may_sublistOrParent {k : ListClass} (hs : s ∈ listStates) (hx : itemClass? x = some k) :
    May x s (sublistOrParent (itemSymbol k) σ) := by
  rw [sublistOrParent_itemSymbol]
  split
  · revert hs
    show _ → s ∉ rootStates
    cases s <;> decide
  · exact Takes.list (.inr hs) hx

/-- In a list items of its class join it, and others may start a list. -/
theorem may_joinList (own : ListClass) {k : ListClass} (hx : itemClass? x = some k) :
    May x (listOf own).1 ((joinList own k).resolve (itemSymbol k) σ) := by
  rw [joinList]
  split
  · next hk =>
    subst hk
    exact Takes.item hx
  · exact may_sublistOrParent (by cases own <;> decide) hx

/-- The other entries of a state. -/
theorem may_of_mem_plainEntries :
    ∀ e ∈ plainEntries s, e.2.1 x = true → May x s (e.2.2.resolve e.1 σ) := by
  intro e he hx
  have hdepth : ∀ {d}, isHeadingOf d x = true → sectionDepth? x.toList = some d := of_decide_eq_true
  cases s <;> simp only [plainEntries, stopEntries, List.mem_cons, List.not_mem_nil, or_false] at he
  case body =>
    rcases he with rfl | rfl | rfl | rfl | rfl
    · exact .header
    · exact .section (.inl rfl) (hdepth hx)
    · exact .preformatted (by decide)
    · exact .stateA hx
    · exact .paragraph (.inl (by decide))
  case «section» =>
    rcases he with rfl | rfl | rfl | rfl
    · show State.section ∉ rootStates
      decide
    · exact .subsection (hdepth hx)
    · exact .preformatted (by decide)
    · exact .paragraph (.inl (by decide))
  case subsection =>
    have hstop : State.subsection ∉ rootStates := by decide
    rcases he with rfl | rfl | rfl | rfl | rfl | rfl
    · exact hstop
    · exact hstop
    · exact .subsubsection (hdepth hx)
    · exact .preformatted (by decide)
    · exact ⟨rfl, rfl, hx⟩
    · exact .paragraph (.inl (by decide))
  case subsubsection =>
    have hstop : State.subsubsection ∉ rootStates := by decide
    rcases he with rfl | rfl | rfl | rfl | rfl
    · exact hstop
    · exact hstop
    · exact hstop
    · exact .preformatted (by decide)
    · exact .paragraph (.inl (by decide))
  case stateA =>
    rw [he]
    exact .stateB
  case stateB =>
    rw [he]
    exact .stateC
  case stateC =>
    rcases he with rfl | rfl
    · exact .section (.inr rfl) (hdepth hx)
    · exact .paragraph (.inr rfl)
  all_goals
    -- in lists and items all of these stop
    rcases he with rfl | rfl | rfl | rfl | rfl | rfl | rfl | rfl | rfl <;>
      exact show _ ∉ rootStates by decide

/-- The entries of a section, of which those for items start lists. -/
theorem may_of_mem_section (hs : s ∈ sectionStates) :
    ∀ e ∈ itemEntries startList ++ plainEntries s, e.2.1 x = true →
      May x s (e.2.2.resolve e.1 σ) := by
  intro e he hx
  rcases List.mem_append.1 he with he | he
  · have hstart : ∀ k, itemClass? x = some k → May x s ((startList k).resolve (itemSymbol k) σ) :=
      fun k hk ↦ Takes.list (.inl hs) hk
    exact may_of_mem_itemEntries hstart e he hx
  · exact may_of_mem_plainEntries e he hx

/-- The entries of a list or an item, of which those that are not for items stop. -/
theorem may_of_mem_list {rule : ListClass → Rule Maker State Symbol}
    (hstop : plainEntries s = stopEntries)
    (hrule : ∀ k, itemClass? x = some k → May x s ((rule k).resolve (itemSymbol k) σ)) :
    ∀ e ∈ itemEntries rule ++ stopEntries, e.2.1 x = true → May x s (e.2.2.resolve e.1 σ) := by
  intro e he hx
  rcases List.mem_append.1 he with he | he
  · exact may_of_mem_itemEntries hrule e he hx
  · exact may_of_mem_plainEntries e (hstop ▸ he) hx

theorem may_of_mem_tableRow : ∀ e ∈ tableRow s, e.2.1 x = true → May x s (e.2.2.resolve e.1 σ) := by
  cases s with
  | body | «section» | subsection | subsubsection => exact may_of_mem_section (by decide)
  | stateA => exact may_of_mem_plainEntries (s := .stateA)
  | stateB => exact may_of_mem_plainEntries (s := .stateB)
  | stateC => exact may_of_mem_plainEntries (s := .stateC)
  | olDecimal => exact may_of_mem_list rfl fun k hk ↦ may_joinList .decimal hk
  | olAlpha => exact may_of_mem_list rfl fun k hk ↦ may_joinList .alpha hk
  | olRoman => exact may_of_mem_list rfl fun k hk ↦ may_joinList .roman hk
  | listItem => exact may_of_mem_list rfl fun k hk ↦ may_sublistOrParent (by decide) hk

/-- Every transition of the table is one that may be. -/
theorem may_of_transition? {y : Symbol} {t : Transition Maker State}
    (h : grammar.transition? σ x = some (y, t)) : May x σ.top t := by
  rw [transition?_eq] at h
  obtain ⟨e, he, heq⟩ := Option.map_eq_some_iff.1 h
  obtain ⟨-, rfl⟩ := Prod.mk.inj heq
  have hx := List.find?_some he
  exact may_of_mem_tableRow e (List.mem_of_find?_eq_some he) hx

end FragmentParser.Outline
