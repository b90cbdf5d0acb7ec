import FragmentParser.Proofs.Outline.Lists
import FragmentParser.Proofs.Outline.Reading

/-!
# The steps of outline parses

Whatever an outline parse has come to, the next chunk does one of three things (`Advance`), or it
ends the parse with an error. It joins an open list, or starts a list, or it makes an element that
is neither a list nor an item and closes all lists. What happens below the lists is told only as far
as lists depend on it: the states of the frames there are no list's (`Sections`), and the new
element is attached to one of theirs.

`Reads` are the runs of such steps. A parse that succeeds is such a run (`exists_reads`), and so
are all its beginnings, each of which is the successful parse of the chunks so far
(`Reads.result`).
-/

namespace FragmentParser.Outline

/-- The states that the root can be in. -/
def rootStates : List State := [.body, .stateA, .stateB, .stateC]

/-- The frames of sections, with the root's at the bottom. -/
structure Sections (σ : StateStack State) : Prop where
  /-- They hold no lists. -/
  noLists : NoLists σ
  /-- The root is in one of its states. -/
  root : ∃ s ∈ rootStates, (σ.top :: σ.below).getLast? = some s

/-- The kinds of elements that are neither lists nor items, besides the body. -/
def plainKinds : List String :=
  ["section", "subsection", "subsubsection", "header", "paragraph", "preformatted"]

/-- An element of one of these kinds, with nothing but text in it. -/
def IsPlain (n : Node) : Prop :=
  ∃ e : Element, n = e.toNode ∧ e.kind ∈ plainKinds ∧ ∀ c ∈ e.children, ∃ s, c = .text s

/-- What a chunk does on top of the frames `σ` with lists of the classes `ks`: the frames and the
lists that are open afterwards, and the depth where a node is attached. -/
inductive Advance (σ : StateStack State) (ks : List ListClass) (x : String) :
    StateStack State → List ListClass → Nat → Node → Prop where
  /-- The chunk joins the list of its class, which closes the lists inside. -/
  | join {k : ListClass} {inner outer : List ListClass} :
      itemClass? x = some k → ks = inner ++ k :: outer → k ∉ inner →
      Advance σ ks x σ (k :: outer) (σ.below.length + 2 * outer.length + 1) (itemElement x).toNode
  /-- The chunk starts a list of a class that is not open. -/
  | start {style : ListStyle} : listStyle? x.toList = some style → style.listClass ∉ ks →
      Advance σ ks x σ (style.listClass :: ks) (σ.below.length + 2 * ks.length) (listNode style x)
  /-- The chunk makes another element, which may be open afterwards. If lists are open the chunk is
  no list item. -/
  | plain {σ' : StateStack State} {depth : Nat} {n : Node} :
      (ks ≠ [] → itemClass? x = none) → Sections σ' → IsPlain n → depth ≤ σ.below.length →
      (σ'.below.length = depth ∨ σ'.below.length = depth + 1) → Advance σ ks x σ' [] depth n

/-! ### Sections -/

variable {σ : StateStack State} {x : String}

/-- The constructors of plain elements, with the states that the table names for them. -/
def plainMoves : List (Maker × Option State) :=
  [(.paragraph, none), (.preformatted, none), (.header, none), (.stateA, some .stateA),
    (.stateB, some .stateB), (.stateC, some .stateC), (.section, some .section),
    (.subsection, some .subsection), (.subsubsection, some .subsubsection)]

/-- The entries of sections construct plain elements, or they stop, but not the root. -/
theorem plainEntries_fixed {s : State} (hs : s ∉ listStates) :
    ∀ e ∈ plainEntries s, ∃ t, e.2.2 = .fixed t ∧
      match t with
      | .construct c s' => (c, s') ∈ plainMoves
      | .stop => s ∉ rootStates
      | .redirect s' => s ∉ rootStates ∧ s' = .body := by
  cases s <;> simp [plainEntries, listStates, rootStates, plainMoves, Transition.child,
    Transition.childIn] at hs ⊢

theorem isPlain_withText {e : Element} (hkind : e.kind ∈ plainKinds) (he : e.children = [])
    (value : String) : IsPlain (e.withText value).toNode := by
  refine ⟨e.withText value, rfl, hkind, fun c hc ↦ ?_⟩
  rw [show (e.withText value).children = e.children ++ [.text value] from rfl, he] at hc
  exact ⟨value, List.mem_singleton.1 hc⟩

/-- Opening a frame of a section. -/
theorem Sections.push (hσ : Sections σ) {s : State} (hs : s ∉ listStates) : Sections (σ.push s) where
  noLists s' hs' := by
    rcases List.mem_cons.1 hs' with rfl | hs'
    · exact hs
    · exact hσ.noLists s' hs'
  root := hσ.root

/-- Closing one. -/
theorem Sections.of_push {s : State} (hσ : Sections (σ.push s)) : Sections σ where
  noLists s' hs' := hσ.noLists s' (List.mem_cons_of_mem _ hs')
  root := hσ.root

/-- Moving the current frame to another state. -/
theorem Sections.replaceTop (hσ : Sections σ) {s : State} (hs : s ∈ rootStates) :
    Sections (σ.replaceTop s) where
  noLists s' hs' := by
    rcases List.mem_cons.1 hs' with rfl | hs'
    · revert hs
      cases s' <;> simp [rootStates, listStates]
    · exact hσ.noLists s' (List.mem_cons_of_mem _ hs')
  root := by
    obtain ⟨top, _ | ⟨b, rest⟩⟩ := σ
    · exact ⟨s, hs, rfl⟩
    · exact hσ.root

/-- A chunk that makes a plain element is attached to the innermost section. -/
theorem exists_grow_of_plain (hσ : Sections σ) {y : Symbol} {c : Maker} {s : Option State}
    (ht : grammar.transition? σ x = some (y, .construct c s)) (hc : (c, s) ∈ plainMoves) :
    ∃ σ' n, Sections σ' ∧ IsPlain n ∧
      (σ'.below.length = σ.below.length ∨ σ'.below.length = σ.below.length + 1) ∧
      ∀ t xs, grow σ t (x :: xs) = grow σ' (Node.attach σ.below.length n t) xs := by
  have hleaf : ∀ {make n}, shape c = .leaf make → make x = some n → IsPlain n →
      (∀ s', s = some s' → s' ∈ rootStates) → ∃ σ' n, Sections σ' ∧ IsPlain n ∧
        (σ'.below.length = σ.below.length ∨ σ'.below.length = σ.below.length + 1) ∧
        ∀ t xs, grow σ t (x :: xs) = grow σ' (Node.attach σ.below.length n t) xs := by
    intro make n hshape hn hplain hs
    refine ⟨σ.share (Constructor.frame c) s, n, ?_, hplain, .inl (by simp), fun t xs ↦
      grow_of_leaf ht hshape hn⟩
    rcases hframe : Constructor.frame c with _ | _ <;> rcases s with _ | s
    · exact hσ
    · exact hσ.replaceTop (hs s rfl)
    · exact hσ
    · exact hσ
  have hcontainer : ∀ {kind s'}, s = some s' → shape c = .container (headingElement kind) →
      kind ∈ plainKinds → s' ∉ listStates → Maker.frame c = .own → ∃ σ' n, Sections σ' ∧ IsPlain n ∧
        (σ'.below.length = σ.below.length ∨ σ'.below.length = σ.below.length + 1) ∧
        ∀ t xs, grow σ t (x :: xs) = grow σ' (Node.attach σ.below.length n t) xs := by
    rintro kind s' rfl hshape hkind hs' hframe
    refine ⟨σ.push s', (headingElement kind x).toNode, hσ.push hs',
      ⟨headingElement kind x, rfl, hkind, fun _ hc ↦ absurd hc List.not_mem_nil⟩, .inr rfl,
      fun t xs ↦ grow_of_container ht hshape hframe⟩
  simp only [plainMoves, List.mem_cons, Prod.mk.injEq, List.not_mem_nil, or_false] at hc
  rcases hc with ⟨rfl, rfl⟩ | ⟨rfl, rfl⟩ | ⟨rfl, rfl⟩ | ⟨rfl, rfl⟩ | ⟨rfl, rfl⟩ | ⟨rfl, rfl⟩ |
    ⟨rfl, rfl⟩ | ⟨rfl, rfl⟩ | ⟨rfl, rfl⟩
  · exact hleaf rfl rfl (isPlain_withText (by decide) rfl _) nofun
  · exact hleaf rfl rfl (isPlain_withText (by decide) rfl _) nofun
  · exact hleaf rfl rfl (isPlain_withText (by decide) rfl _) nofun
  · exact hleaf rfl rfl (isPlain_withText (by decide) rfl _) (by rintro s' ⟨rfl⟩; decide)
  · exact hleaf rfl rfl (isPlain_withText (by decide) rfl _) (by rintro s' ⟨rfl⟩; decide)
  · exact hleaf rfl rfl (isPlain_withText (by decide) rfl _) (by rintro s' ⟨rfl⟩; decide)
  · exact hcontainer rfl rfl (by decide) (by decide) rfl
  · exact hcontainer rfl rfl (by decide) (by decide) rfl
  · exact hcontainer rfl rfl (by decide) (by decide) rfl

/-- Outside of lists a chunk finds its entry among those that are not for items, unless it is one
and may start a list. -/
theorem transition?_of_sections (hσ : Sections σ)
    (hx : itemClass? x = none ∨ σ.top ∉ sectionStates) : grammar.transition? σ x =
      ((plainEntries σ.top).find? fun e ↦ e.2.1 x).map fun e ↦ (e.1, e.2.2.resolve e.1 σ) := by
  by_cases htop : σ.top ∈ sectionStates
  · exact transition?_plain (hx.resolve_right fun h ↦ h htop) htop
  · have hrow : tableRow σ.top = plainEntries σ.top := by
      have hlist := hσ.noLists σ.top List.mem_cons_self
      revert htop hlist
      cases σ.top <;> simp [sectionStates, listStates, tableRow]
    rw [transition?_eq, hrow]

/-- What a chunk does in the innermost section, if it does not start a list. -/
theorem transition?_cases_of_sections (hσ : Sections σ)
    (hx : itemClass? x = none ∨ σ.top ∉ sectionStates) :
    grammar.transition? σ x = none ∨
    (∃ y c s, grammar.transition? σ x = some (y, .construct c s) ∧ (c, s) ∈ plainMoves) ∨
    ((∃ y, grammar.transition? σ x = some (y, .stop) ∨
      grammar.transition? σ x = some (y, .redirect .body)) ∧ σ.top ∉ rootStates) := by
  have hlist := hσ.noLists σ.top List.mem_cons_self
  rw [transition?_of_sections hσ hx]
  rcases hfind : (plainEntries σ.top).find? fun e ↦ e.2.1 x with _ | e
  · exact .inl (by rw [hfind]; rfl)
  · right
    obtain ⟨t, hrule, ht⟩ := plainEntries_fixed hlist e (List.mem_of_find?_eq_some hfind)
    rw [hfind, Option.map_some, hrule]
    rcases t with ⟨c, s⟩ | _ | s
    · exact .inl ⟨e.1, c, s, rfl, ht⟩
    · exact .inr ⟨⟨e.1, .inl rfl⟩, ht⟩
    · obtain ⟨hroot, rfl⟩ := ht
      exact .inr ⟨⟨e.1, .inr rfl⟩, hroot⟩

/-- Outside of lists a chunk that does not start one makes a plain element, or it ends the parse. -/
theorem exists_grow_of_sections (hσ : Sections σ)
    (hx : itemClass? x = none ∨ σ.top ∉ sectionStates) :
    (∃ σ' depth n, Sections σ' ∧ IsPlain n ∧ depth ≤ σ.below.length ∧
      (σ'.below.length = depth ∨ σ'.below.length = depth + 1) ∧
      ∀ t xs, grow σ t (x :: xs) = grow σ' (Node.attach depth n t) xs) ∨
    ∃ e, ∀ t xs, grow σ t (x :: xs) = .error e := by
  -- on the frames, which the chunk closes until one of them takes it
  obtain ⟨top, below⟩ := σ
  induction below generalizing top with
  | nil =>
    obtain ⟨s, hs, htop⟩ := hσ.root
    rcases transition?_cases_of_sections hσ hx with h | ⟨y, c, s, h, hc⟩ | ⟨-, hroot⟩
    · exact .inr ⟨_, fun t xs ↦ grow_of_none h⟩
    · obtain ⟨σ', n, hσ', hn, hdepth, hgrow⟩ := exists_grow_of_plain hσ h hc
      exact .inl ⟨σ', _, n, hσ', hn, Nat.le_refl _, hdepth, hgrow⟩
    · -- the root is not stopped
      cases htop
      exact absurd hs hroot
  | cons b below ih =>
    rcases transition?_cases_of_sections hσ hx with h | ⟨y, c, s, h, hc⟩ | ⟨⟨y, h⟩, hroot⟩
    · exact .inr ⟨_, fun t xs ↦ grow_of_none h⟩
    · obtain ⟨σ', n, hσ', hn, hdepth, hgrow⟩ := exists_grow_of_plain hσ h hc
      exact .inl ⟨σ', _, n, hσ', hn, Nat.le_refl _, hdepth, hgrow⟩
    · have hnone : itemClass? x = none := by
        refine hx.resolve_right fun hsection ↦ hsection ?_
        have hlist := hσ.noLists top List.mem_cons_self
        revert hroot hlist
        cases top <;> simp [rootStates, listStates, sectionStates]
      have hcaller : ∃ b', Sections ⟨b', below⟩ ∧ ∀ t xs,
          grow ⟨top, b :: below⟩ t (x :: xs) = grow ⟨b', below⟩ t (x :: xs) := by
        rcases h with h | h
        · exact ⟨b, hσ.of_push (σ := ⟨b, below⟩), fun t xs ↦ grow_of_stop (σ := ⟨b, below⟩) h⟩
        · exact ⟨.body, (hσ.of_push (σ := ⟨b, below⟩)).replaceTop (by decide),
            fun t xs ↦ grow_of_redirect (σ := ⟨b, below⟩) h⟩
      obtain ⟨b', hσ', hgrow⟩ := hcaller
      rcases ih b' hσ' (.inl hnone) with ⟨σ'', depth, n, hσ'', hn, hle, hdepth, hgrow'⟩ | ⟨e, he⟩
      · exact .inl ⟨σ'', depth, n, hσ'', hn, Nat.le_succ_of_le hle, hdepth,
          fun t xs ↦ (hgrow t xs).trans (hgrow' t xs)⟩
      · exact .inr ⟨e, fun t xs ↦ (hgrow t xs).trans (he t xs)⟩

/-- The next chunk takes a parse one step on, or ends it with an error. -/
theorem exists_advance (hσ : Sections σ) (ks : List ListClass) (x : String) :
    (∃ σ' ks' depth n, Advance σ ks x σ' ks' depth n ∧
      ∀ t xs, grow (nest ks σ) t (x :: xs) = grow (nest ks' σ') (Node.attach depth n t) xs) ∨
    ∃ e, ∀ t xs, grow (nest ks σ) t (x :: xs) = .error e := by
  -- what sections do with a chunk, once no lists are open
  have hsections : (ks ≠ [] → itemClass? x = none) → (itemClass? x = none ∨ σ.top ∉ sectionStates) →
      (∀ t xs, grow (nest ks σ) t (x :: xs) = grow σ t (x :: xs)) →
      (∃ σ' ks' depth n, Advance σ ks x σ' ks' depth n ∧
        ∀ t xs, grow (nest ks σ) t (x :: xs) = grow (nest ks' σ') (Node.attach depth n t) xs) ∨
      ∃ e, ∀ t xs, grow (nest ks σ) t (x :: xs) = .error e := by
    intro hks hx hclose
    rcases exists_grow_of_sections hσ hx with ⟨σ', depth, n, hσ', hn, hle, hdepth, hgrow⟩ | ⟨e, he⟩
    · exact .inl ⟨σ', [], depth, n, .plain hks hσ' hn hle hdepth,
        fun t xs ↦ (hclose t xs).trans (hgrow t xs)⟩
    · exact .inr ⟨e, fun t xs ↦ (hclose t xs).trans (he t xs)⟩
  rcases hstyle : listStyle? x.toList with _ | style
  · have hx : itemClass? x = none := by
      rw [itemClass?, hstyle]
      rfl
    rcases ks with _ | ⟨k, ks⟩
    · exact hsections (fun h ↦ absurd rfl h) (.inl hx) fun _ _ ↦ rfl
    · rcases hends : endsLists x with _ | _
      · obtain ⟨state, tried, he⟩ := grow_in_lists_of_none (σ := σ) hx hends k ks
        exact .inr ⟨_, he⟩
      · exact hsections (fun _ ↦ hx) (.inl hx) fun t xs ↦ grow_close_lists hx hends _
  · have hx : itemClass? x = some style.listClass := by
      rw [itemClass?, hstyle]
      rfl
    by_cases hk : style.listClass ∈ ks
    · obtain ⟨inner, outer, rfl, hinner⟩ := List.eq_append_cons_of_mem hk
      exact .inl ⟨_, _, _, _, .join hx rfl hinner, fun t xs ↦ grow_item_join hσ.noLists hx hinner⟩
    · by_cases htop : ks = [] ∧ σ.top ∉ sectionStates
      · obtain ⟨rfl, htop⟩ := htop
        exact hsections (fun h ↦ absurd rfl h) (.inr htop) fun _ _ ↦ rfl
      · refine .inl ⟨_, _, _, _, .start hstyle hk, fun t xs ↦ grow_item_new hσ.noLists hstyle hk ?_⟩
        intro hnil
        by_contra hsection
        exact htop ⟨hnil, hsection⟩

/-! ### Runs -/

/-- A parse has read these chunks. It has built the tree, on which the frames of sections and lists
of the classes are open. -/
inductive Reads : List String → StateStack State → List ListClass → Node → Prop where
  | blank : Reads [] (.root .body) [] (Element.ofKind "body").toNode
  | step {chunks : List String} {σ σ' : StateStack State} {ks ks' : List ListClass} {t n : Node}
      {x : String} {depth : Nat} : Reads chunks σ ks t → Advance σ ks x σ' ks' depth n →
      (∀ xs, grow (nest ks σ) t (x :: xs) = grow (nest ks' σ') (Node.attach depth n t) xs) →
      Reads (chunks ++ [x]) σ' ks' (Node.attach depth n t)

theorem Advance.sections {ks ks' : List ListClass} {σ' : StateStack State} {depth : Nat} {n : Node}
    (h : Advance σ ks x σ' ks' depth n) (hσ : Sections σ) : Sections σ' := by
  cases h with
  | join | start => exact hσ
  | plain _ hσ' => exact hσ'

namespace Reads

variable {chunks : List String} {ks : List ListClass} {t : Node}

theorem sections (h : Reads chunks σ ks t) : Sections σ := by
  induction h with
  | blank => exact ⟨noLists_levelStack 0, .body, by decide, rfl⟩
  | step _ hstep _ ih => exact hstep.sections ih

/-- What is left of the parse goes on from there. -/
theorem grow_eq (h : Reads chunks σ ks t) (xs : List String) :
    grow (.root .body) (Element.ofKind "body").toNode (chunks ++ xs) = grow (nest ks σ) t xs := by
  induction h generalizing xs with
  | blank => rfl
  | step _ _ hgrow ih => rw [List.append_assoc, ih, List.singleton_append, hgrow]

/-- The tree is what the chunks so far are parsed as. -/
theorem result (h : Reads chunks σ ks t) :
    (CatalogEntry.outline.parse chunks).result = some (.ok t) := by
  have hgrow := h.grow_eq []
  rw [List.append_nil, grow_nil] at hgrow
  rw [result_outline, hgrow]

/-- A run goes on to the end of a parse that succeeds. -/
theorem exists_append (h : Reads chunks σ ks t) {xs : List String} {t' : Node}
    (ht : grow (nest ks σ) t xs = .ok t') : ∃ σ' ks', Reads (chunks ++ xs) σ' ks' t' := by
  induction xs generalizing chunks σ ks t with
  | nil =>
    rw [grow_nil] at ht
    cases ht
    exact ⟨σ, ks, by rwa [List.append_nil]⟩
  | cons x xs ih =>
    rcases exists_advance h.sections ks x with ⟨σ', ks', depth, n, hstep, hgrow⟩ | ⟨e, he⟩
    · have hnext := ih (h.step hstep (hgrow t)) ((hgrow t xs).symm.trans ht)
      rwa [List.append_assoc, List.singleton_append] at hnext
    · rw [he] at ht
      cases ht

end Reads

/-- A parse that succeeds is a run. -/
theorem exists_reads {chunks : List String} {t : Node}
    (h : (CatalogEntry.outline.parse chunks).result = some (.ok t)) :
    ∃ σ ks, Reads chunks σ ks t := by
  rw [result_outline] at h
  exact Reads.blank.exists_append (Option.some.inj h)

end FragmentParser.Outline
