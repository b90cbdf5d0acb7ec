import FragmentParser.Proofs.Outline.Hierarchy
import Mathlib.Data.List.Forall2

/-!
# The state chain

The paragraphs `State A:`, `State B:` and `State C:` form a **chain**: they are neighbours among the
children of the body or of a section, in this order and without gaps, and the chain may break off
(`ChainLaw`). Behind a complete chain there are sections and plain paragraphs only, and in a section
the chain comes behind the subsections, of which there is at least one (`chain_law`).

The grammar has no element for the chain. Its paragraphs are leaves that put their own frame into
another state, and all that is left of it in a tree is the order of the children. Hence the
invariant (`Chained`): the children of an element are some that belong to no chain, then the
paragraphs of the chain **as far as the state of the frame says** (`State.marks`), then some that
may follow it. The only step that puts a frame back is a redirection, and it finds a section without
a chain.
-/

namespace FragmentParser.Outline

/-- The node is a paragraph of the state chain with this id. -/
def IsState (id : String) (n : Node) : Prop := n.kind = "paragraph" ∧ n.attribute? "id" = some id

/-- The child of index `i` is a paragraph of the state chain with this id. -/
def StateAt (id : String) (children : List Node) (i : Nat) : Prop :=
  ∃ c, children[i]? = some c ∧ IsState id c

/-- What the state chain is among the children of an element of some kind. -/
structure ChainLaw (kind : String) (children : List Node) : Prop where
  /-- The chain is in the body or in a section. -/
  parent : ∀ id ∈ stateIds, ∀ i, StateAt id children i → kind = "body" ∨ kind = "section"
  /-- It begins once at most. -/
  unique : ∀ i j, StateAt "state-a" children i → StateAt "state-a" children j → i = j
  /-- Nothing comes next to A but B. -/
  afterA : ∀ i, StateAt "state-a" children i →
    i + 1 = children.length ∨ StateAt "state-b" children (i + 1)
  /-- There is no B without an A before it. -/
  beforeB : ∀ i, StateAt "state-b" children i → ∃ j, i = j + 1 ∧ StateAt "state-a" children j
  /-- Nothing comes next to B but C. -/
  afterB : ∀ i, StateAt "state-b" children i →
    i + 1 = children.length ∨ StateAt "state-c" children (i + 1)
  /-- There is no C without a B before it. -/
  beforeC : ∀ i, StateAt "state-c" children i → ∃ j, i = j + 1 ∧ StateAt "state-b" children j
  /-- Behind C there are sections and paragraphs without an id. -/
  afterC : ∀ i, StateAt "state-c" children i → ∀ j c, i < j → children[j]? = some c →
    c.kind = "section" ∨ c.kind = "paragraph" ∧ c.attribute? "id" = none
  /-- In a section there is a subsection before the chain, and none behind. -/
  inSection : kind = "section" → ∀ i, StateAt "state-a" children i →
    (∃ j < i, ∃ c, children[j]? = some c ∧ c.kind = "subsection") ∧
      ∀ j c, i < j → children[j]? = some c → c.kind ≠ "subsection"

/-- The ids of the chain that a frame in the state has taken. -/
def State.marks : State → List String
  | .stateA => ["state-a"]
  | .stateB => ["state-a", "state-b"]
  | .stateC => ["state-a", "state-b", "state-c"]
  | _ => []

/-- The node may come behind a complete chain. -/
def FollowsChain (n : Node) : Prop :=
  n.kind = "section" ∨ n.kind = "paragraph" ∧ n.attribute? "id" = none

/-- The children of an element that a frame in the state has filled, in three parts. -/
structure Chained (s : State) (front marks after : List Node) : Prop where
  /-- Before the chain there is no state. -/
  front : ∀ c ∈ front, ∀ id, ¬IsState id c
  /-- The chain is as long as the state says. -/
  marks : List.Forall₂ IsState s.marks marks
  /-- Only a complete chain is followed by anything. -/
  complete : after ≠ [] → s = .stateC
  /-- It is followed by sections and paragraphs without an id. -/
  after : ∀ c ∈ after, FollowsChain c

variable {chunks : List String} {s s' : State} {e : Element} {n : Node} {x kind id : String}
  {children front marks after : List Node} {i m : Nat}

/-! ### The marks of a state -/

theorem State.marks_prefix (s : State) : s.marks <+: stateIds := by
  cases s <;> decide

/-- The chain begins with A and goes on to B and C. -/
theorem stateIds_of_marks (h : s.marks[m]? = some id) : stateIds[m]? = some id := by
  obtain ⟨rest, hrest⟩ := s.marks_prefix
  rw [← hrest]
  exact getElem?_append_of_some h rest

theorem marks_eq_nil (h : s ∉ rootStates) : s.marks = [] := by
  revert h
  cases s <;> decide

theorem not_isState_of_kind (h : n.kind ≠ "paragraph") : ∀ id, ¬IsState id n :=
  fun _ hstate ↦ h hstate.1

/-- What follows a chain belongs to none. -/
theorem FollowsChain.not_isState (h : FollowsChain n) : ¬IsState id n := by
  rintro ⟨hkind, hid⟩
  rcases h with hsection | ⟨-, hnone⟩
  · rw [hsection] at hkind
    exact absurd hkind (by decide)
  · rw [hnone] at hid
    cases hid

/-! ### Children that are added -/

/-- The children that a frame in the state has taken, with the chain among them. -/
def HasChain (s : State) (children : List Node) : Prop :=
  ∃ front marks after, children = front ++ marks ++ after ∧ Chained s front marks after

/-- Elements begin without a chain. -/
theorem OfTexts.hasChain (h : OfTexts n) (hs : s.marks = []) : HasChain s n.children := by
  refine ⟨n.children, [], [], by simp, ?_, hs ▸ .nil, fun hne ↦ absurd rfl hne, ?_⟩
  · intro c hc
    obtain ⟨value, rfl⟩ := h c hc
    have htext : "text" ≠ "paragraph" := by decide
    exact not_isState_of_kind htext
  · intro c hc
    cases hc

theorem Chained.after_eq_nil (h : Chained s front marks after) (hs : s ≠ .stateC) : after = [] := by
  by_contra hne
  exact hs (h.complete hne)

/-- As long as there is no chain, what is added comes before it. -/
theorem HasChain.before (h : HasChain s children) (hs : s.marks = []) (hs' : s'.marks = [])
    (hn : ∀ id, ¬IsState id n) : HasChain s' (children ++ [n]) := by
  obtain ⟨front, marks, after, rfl, h⟩ := h
  have hmarks := h.marks
  rw [hs] at hmarks
  cases hmarks
  have hstate : s ≠ .stateC := by
    rintro rfl
    cases hs
  obtain rfl := h.after_eq_nil hstate
  refine ⟨front ++ [n], [], [], by simp, ?_, hs' ▸ .nil, fun hne ↦ absurd rfl hne, h.after⟩
  intro c hc
  rcases List.mem_append.1 hc with hc | hc
  · exact h.front c hc
  · rwa [List.mem_singleton.1 hc]

/-- A state makes the chain longer. -/
theorem HasChain.mark (h : HasChain s children) (hs : s'.marks = s.marks ++ [id])
    (hn : IsState id n) : HasChain s' (children ++ [n]) := by
  obtain ⟨front, marks, after, rfl, h⟩ := h
  have hstate : s ≠ .stateC := by
    rintro rfl
    have hlength := s'.marks_prefix.length_le
    rw [hs] at hlength
    exact absurd hlength (Nat.not_le.2 (Nat.lt_succ_self 3))
  obtain rfl := h.after_eq_nil hstate
  refine ⟨front, marks ++ [n], [], by simp, h.front, ?_, fun hne ↦ absurd rfl hne, h.after⟩
  rw [hs]
  exact List.rel_append h.marks (.cons hn .nil)

/-- A complete chain is followed by what is added. -/
theorem HasChain.behind (h : HasChain .stateC children) (hn : FollowsChain n) :
    HasChain .stateC (children ++ [n]) := by
  obtain ⟨front, marks, after, rfl, h⟩ := h
  refine ⟨front, marks, after ++ [n], by simp, h.front, h.marks, fun _ ↦ rfl, ?_⟩
  intro c hc
  rcases List.mem_append.1 hc with hc | hc
  · exact h.after c hc
  · rwa [List.mem_singleton.1 hc]

/-- A leaf comes where the state has it. -/
theorem HasChain.leaf (h : HasChain s children) (hleaf : Leaf x s s' n) :
    HasChain s' (children ++ [n]) := by
  have hsections : ∀ s ∈ sectionStates, s.marks = [] := by decide
  cases hleaf with
  | paragraph hs =>
    have hplain : (flowElement (Element.ofKind "paragraph") x).attribute? "id" = none := rfl
    rcases hs with hs | rfl
    · refine h.before (hsections s hs) (hsections s hs) ?_
      rintro id ⟨-, hid⟩
      rw [hplain] at hid
      cases hid
    · exact h.behind (.inr ⟨rfl, hplain⟩)
  | preformatted hs =>
    have hkind : "preformatted" ≠ "paragraph" := by decide
    exact h.before (hsections s hs) (hsections s hs) (not_isState_of_kind hkind)
  | header =>
    have hkind : "header" ≠ "paragraph" := by decide
    exact h.before rfl rfl (not_isState_of_kind hkind)
  | stateA | stateB | stateC => exact h.mark rfl ⟨rfl, rfl⟩

/-- The element of a frame on top comes where the state has it. -/
theorem HasChain.child (h : HasChain s children) (hin : n.kind ∈ s.innerKinds) :
    HasChain s (children ++ [n]) := by
  have hstate : s.innerKinds ≠ [] → s = .stateC ∨ s.marks = [] := by
    cases s <;> decide
  rcases hstate (List.ne_nil_of_mem hin) with rfl | hs
  · exact h.behind (.inl (List.mem_singleton.1 hin))
  · have hkinds : "paragraph" ∉ s.innerKinds := by
      cases s <;> decide
    exact h.before hs hs (not_isState_of_kind fun hkind ↦ hkinds (hkind ▸ hin))

/-- In an element that a frame has filled the chain is as long as the frame's state says. -/
theorem Filled.hasChain (h : Filled chunks s e) : HasChain s e.children := by
  induction h with
  | body =>
    have hnil : (Element.ofKind "body").toNode.children = [] := rfl
    exact (ofTexts_of_children_eq_nil hnil).hasChain rfl
  | opened hopens => exact hopens.ofTexts.hasChain (marks_eq_nil hopens.not_mem_rootStates)
  | @list k x e _ he =>
    have hs : (listOf k).1.marks = [] := by
      cases k <;> rfl
    have hnil : e.toNode.children = [] := (kind_listElement he).2
    exact (ofTexts_of_children_eq_nil hnil).hasChain hs
  | leaf _ hleaf ih => exact ih.leaf hleaf
  | @child s s' e e' _ _ hin ih =>
    have hkind : e'.toNode.kind ∈ s.innerKinds := hin
    exact ih.child hkind
  | @redirected e e' _ hinner _ ih =>
    have hkind : e'.toNode.kind = "subsection" := List.mem_singleton.1 hinner.kind
    refine ih.before rfl rfl (not_isState_of_kind ?_)
    rw [hkind]
    decide

/-! ### The law of the chain -/

/-- The paragraphs of the chain are where the marks of the state are, counted from its beginning. -/
theorem Chained.exists_mark (h : Chained s front marks after)
    (hat : StateAt id (front ++ marks ++ after) i) :
    ∃ m, i = front.length + m ∧ s.marks[m]? = some id := by
  obtain ⟨c, hc, hstate⟩ := hat
  rw [List.append_assoc] at hc
  rcases Nat.lt_or_ge i front.length with hi | hi
  · rw [List.getElem?_append_left hi] at hc
    exact absurd hstate (h.front c (List.mem_of_getElem? hc) id)
  · obtain ⟨m, rfl⟩ := Nat.exists_eq_add_of_le hi
    rw [List.getElem?_append_right hi, Nat.add_sub_cancel_left] at hc
    rcases Nat.lt_or_ge m marks.length with hm | hm
    · rw [List.getElem?_append_left hm] at hc
      obtain ⟨id', hid', hstate'⟩ := forall₂_getElem? h.marks hc
      have heq : some id' = some id := hstate'.2.symm.trans hstate.2
      exact ⟨m, rfl, heq ▸ hid'⟩
    · rw [List.getElem?_append_right hm] at hc
      exact absurd hstate (h.after c (List.mem_of_getElem? hc)).not_isState

theorem Chained.stateAt (h : Chained s front marks after) (hm : s.marks[m]? = some id) :
    StateAt id (front ++ marks ++ after) (front.length + m) := by
  obtain ⟨c, hc, hstate⟩ := forall₂_getElem? h.marks.flip hm
  refine ⟨c, ?_, hstate⟩
  rw [List.append_assoc, List.getElem?_append_right (Nat.le_add_right _ _), Nat.add_sub_cancel_left]
  exact getElem?_append_of_some hc after

/-- Next to a paragraph of the chain comes the next one, or nothing unless the chain is complete. -/
theorem Chained.next (h : Chained s front marks after) (hm : s.marks[m]? = some id)
    {next : String} (hnext : stateIds[m + 1]? = some next) :
    front.length + m + 1 = (front ++ marks ++ after).length ∨
      StateAt next (front ++ marks ++ after) (front.length + m + 1) := by
  rcases hm' : s.marks[m + 1]? with _ | id'
  · left
    have hlast : s.marks.length = m + 1 := by
      have hlt := (List.getElem?_eq_some_iff.1 hm).1
      have hle := List.getElem?_eq_none_iff.1 hm'
      omega
    have hstate : s ≠ .stateC := by
      rintro rfl
      have hlt := (List.getElem?_eq_some_iff.1 hnext).1
      exact absurd hlt (by rw [← hlast]; decide)
    obtain rfl := h.after_eq_nil hstate
    rw [List.append_nil, List.length_append, ← h.marks.length_eq, hlast]
    rfl
  · right
    have hid' := stateIds_of_marks hm'
    rw [hnext, Option.some.injEq] at hid'
    subst hid'
    exact h.stateAt hm'

/-- Before a paragraph of the chain comes the one before. -/
theorem Chained.prev (h : Chained s front marks after) (hm : s.marks[m + 1]? = some id)
    {prev : String} (hprev : stateIds[m]? = some prev) :
    StateAt prev (front ++ marks ++ after) (front.length + m) := by
  have hlt := (List.getElem?_eq_some_iff.1 hm).1
  have hm' := List.getElem?_eq_getElem (Nat.lt_of_succ_lt hlt)
  have hid' := stateIds_of_marks hm'
  rw [hprev, Option.some.injEq] at hid'
  rw [← hid'] at hm'
  exact h.stateAt hm'

theorem eq_of_stateIds {k : Nat} (h : stateIds[m]? = some id) (hk : stateIds[k]? = some id) :
    m = k := by
  have hnodup : stateIds.Nodup := by decide
  exact (List.getElem?_inj (List.getElem?_eq_some_iff.1 h).1 hnodup).1 (h.trans hk.symm)

/-- What comes behind a complete chain is in the last part. -/
theorem Chained.mem_after (h : Chained s front marks after) {j : Nat} {c : Node}
    (hj : front.length + stateIds.length ≤ j) (hc : (front ++ marks ++ after)[j]? = some c) :
    c ∈ after := by
  have hle : (front ++ marks).length ≤ j := by
    have hprefix := s.marks_prefix.length_le
    rw [List.length_append, ← h.marks.length_eq]
    omega
  rw [List.getElem?_append_right hle] at hc
  exact List.mem_of_getElem? hc

/-- Subsections come before the chain. -/
theorem Chained.lt_of_subsection (h : Chained s front marks after) {j : Nat} {c : Node}
    (hc : (front ++ marks ++ after)[j]? = some c) (hkind : c.kind = "subsection") :
    j < front.length := by
  by_contra hge
  rw [List.append_assoc, List.getElem?_append_right (Nat.le_of_not_lt hge)] at hc
  have hother : c.kind = "section" ∨ c.kind = "paragraph" := by
    rcases List.mem_append.1 (List.mem_of_getElem? hc) with hmark | hafter
    · obtain ⟨m, hm⟩ := List.mem_iff_getElem?.1 hmark
      obtain ⟨id, -, hstate⟩ := forall₂_getElem? h.marks hm
      exact .inr hstate.1
    · exact (h.after c hafter).imp id And.left
  rw [hkind] at hother
  revert hother
  decide

/-- The parts of the children give the law, if a frame with a chain is that of a body, or of a
section with a subsection. -/
theorem Chained.law (h : Chained s front marks after)
    (hkind : s.marks ≠ [] → kind = "body" ∨ kind = "section")
    (hsub : s.marks ≠ [] → kind = "section" →
      ∃ c ∈ front ++ marks ++ after, c.kind = "subsection") :
    ChainLaw kind (front ++ marks ++ after) := by
  have hne : ∀ {m : Nat} {id : String}, s.marks[m]? = some id → s.marks ≠ [] := by
    intro m id hm
    exact List.ne_nil_of_mem (List.mem_of_getElem? hm)
  -- every paragraph of the chain has its place, counted from where the chain begins
  have hplace : ∀ (k : Nat) {i : Nat} {id : String}, StateAt id (front ++ marks ++ after) i →
      stateIds[k]? = some id → i = front.length + k ∧ s.marks[k]? = some id := by
    intro k i id hat hk
    obtain ⟨m, rfl, hm⟩ := h.exists_mark hat
    obtain rfl := eq_of_stateIds (stateIds_of_marks hm) hk
    exact ⟨rfl, hm⟩
  constructor
  case parent =>
    intro id hid i hat
    obtain ⟨m, -, hm⟩ := h.exists_mark hat
    exact hkind (hne hm)
  case unique =>
    intro i j hi hj
    exact (hplace 0 hi rfl).1.trans (hplace 0 hj rfl).1.symm
  case afterA =>
    intro i hi
    obtain ⟨rfl, hm⟩ := hplace 0 hi rfl
    exact h.next hm rfl
  case beforeB =>
    intro i hi
    obtain ⟨rfl, hm⟩ := hplace 1 hi rfl
    exact ⟨front.length, rfl, h.prev hm rfl⟩
  case afterB =>
    intro i hi
    obtain ⟨rfl, hm⟩ := hplace 1 hi rfl
    exact h.next hm rfl
  case beforeC =>
    intro i hi
    obtain ⟨rfl, hm⟩ := hplace 2 hi rfl
    exact ⟨front.length + 1, rfl, h.prev hm rfl⟩
  case afterC =>
    intro i hi j c hj hc
    obtain ⟨rfl, -⟩ := hplace 2 hi rfl
    exact h.after c (h.mem_after hj hc)
  case inSection =>
    intro hsection i hi
    obtain ⟨rfl, hm⟩ := hplace 0 hi rfl
    obtain ⟨c, hmem, hc⟩ := hsub (hne hm) hsection
    obtain ⟨j, hj⟩ := List.mem_iff_getElem?.1 hmem
    refine ⟨⟨j, h.lt_of_subsection hj hc, c, hj, hc⟩, fun j c hlt hj hc ↦ ?_⟩
    have hfront := h.lt_of_subsection hj hc
    omega

/-- **The law of the state chain** holds of the children of every node in the tree of an outline
parse. -/
theorem chain_law {t : Node} (h : (CatalogEntry.outline.parse chunks).result = some (.ok t))
    {p : List Nat} {n : Node} (hn : t.get? p = some n) : ChainLaw n.kind n.children := by
  obtain ⟨s, e, rfl, -, hfilled⟩ := exists_filled_of_result h
  rcases hfilled.get? hn with ⟨s', e', rfl, hfilled'⟩ | htexts
  · obtain ⟨front, marks, after, heq, hchained⟩ := hfilled'.hasChain
    have hroot : s'.marks ≠ [] → s' ∈ rootStates := by
      intro hne
      by_contra hs
      exact hne (marks_eq_nil hs)
    have hlaw := hchained.law (fun hne ↦ kind_of_mem_rootStates (hroot hne) _ hfilled'.kind)
      fun hne hkind ↦ heq ▸ (hfilled'.exists_subsection (hroot hne) hkind).2
    rw [← heq] at hlaw
    exact hlaw
  · have hnone : State.listItem.marks = [] := rfl
    obtain ⟨front, marks, after, heq, hchained⟩ := htexts.hasChain hnone
    rw [heq]
    exact hchained.law (fun hne ↦ absurd hnone hne) fun hne ↦ absurd hnone hne

/-- A section with the whole chain and a paragraph behind it. -/
theorem chain_law_section :
    ∃ t n, (CatalogEntry.outline.parse ["1 One", "1.1 Sub", "State A: go", "State B: go",
        "State C: go", "At the end."]).result = some (.ok t) ∧
      t.get? [0] = some n ∧ n.kind = "section" ∧ n.children.length = 5 ∧
      StateAt "state-a" n.children 1 ∧ ChainLaw n.kind n.children := by
  have h : (CatalogEntry.outline.parse ["1 One", "1.1 Sub", "State A: go", "State B: go",
      "State C: go", "At the end."]).result = some (.ok _) := rfl
  exact ⟨_, _, h, rfl, rfl, rfl, ⟨_, rfl, rfl, rfl⟩, chain_law (p := [0]) h rfl⟩

end FragmentParser.Outline
