import FragmentParser.Proofs.Moments
import FragmentParser.Proofs.Outline.Frames

/-!
# The stacks of outline parses

At the bottom of every stack there are bodies, the frames whose elements sections are built in. On
them stand a section, its subsection and the subsubsection of that, as far as they are open
(`Levels`), and on top are the lists with their items, each class once.

The machine keeps this form together with what makes the next step keep it (`Fits`): a list whose
item has just been closed is not going to meet an item of a class that is not open, because the item
would have started a list inside itself. What one step preserves (`Fits.step`) holds along a run
(`fits_of_leads`), and so **wherever the parse builds children** (`fits_of_reaches`).
-/

namespace FragmentParser.Outline

variable {s s' : State} {ss : List State} {σ : StateStack State} {x : String} {xs : List String}
  {k : ListClass} {ks : List ListClass} {c c' : Config}

/-! ### Stacks without lists -/

/-- The frames are in states in which a section may begin. -/
def Bodies (ss : List State) : Prop := ∀ s ∈ ss, s = .body ∨ s = .stateC

/-- The stacks without lists. -/
inductive Levels : StateStack State → Prop where
  /-- Bodies alone, of which the innermost may be anywhere in the state chain. -/
  | body {s : State} {ss : List State} : s ∈ rootStates → Bodies ss → Levels ⟨s, ss⟩
  /-- A section on top of them. -/
  | section {s : State} {ss : List State} : Bodies (s :: ss) → Levels ⟨.section, s :: ss⟩
  /-- A subsection in it. -/
  | subsection {s : State} {ss : List State} : Bodies (s :: ss) →
      Levels ⟨.subsection, .section :: s :: ss⟩
  /-- A subsubsection in that. -/
  | subsubsection {s : State} {ss : List State} : Bodies (s :: ss) →
      Levels ⟨.subsubsection, .subsection :: .section :: s :: ss⟩

theorem mem_rootStates_of_eq (h : s = .body ∨ s = .stateC) : s ∈ rootStates := by
  rcases h with rfl | rfl <;> decide

theorem listOf_mem_listStates (k : ListClass) : (listOf k).1 ∈ listStates := by
  cases k <;> decide

theorem Levels.noLists (h : Levels σ) : NoLists σ := by
  have hroot : ∀ s ∈ rootStates, s ∉ listStates := by decide
  have hbodies : ∀ {ss}, Bodies ss → ∀ s ∈ ss, s ∉ listStates := fun h s hs ↦
    hroot s (mem_rootStates_of_eq (h s hs))
  have hpush : ∀ s ∈ [State.section, .subsection, .subsubsection], ∀ {ss : List State},
      (∀ s ∈ ss, s ∉ listStates) → ∀ s' ∈ s :: ss, s' ∉ listStates := by
    intro s hs ss hss
    have hlevel : ∀ s ∈ [State.section, .subsection, .subsubsection], s ∉ listStates := by decide
    exact List.forall_mem_cons.2 ⟨hlevel s hs, hss⟩
  cases h with
  | body hs hss => exact List.forall_mem_cons.2 ⟨hroot _ hs, hbodies hss⟩
  | «section» hss => exact hpush .section (by decide) (hbodies hss)
  | subsection hss =>
    exact hpush .subsection (by decide) (hpush .section (by decide) (hbodies hss))
  | subsubsection hss =>
    exact hpush .subsubsection (by decide)
      (hpush .subsection (by decide) (hpush .section (by decide) (hbodies hss)))

/-- Below a body there are bodies. -/
theorem Levels.bodies (h : Levels ⟨s, ss⟩) (hs : s ∈ rootStates) : Bodies ss := by
  cases h with
  | body _ hss => exact hss
  | «section» | subsection | subsubsection => exact absurd hs (by decide)

theorem Levels.pop (h : Levels ⟨s, s' :: ss⟩) : Levels ⟨s', ss⟩ := by
  cases h with
  | body _ hss =>
    obtain ⟨hs', hss⟩ := List.forall_mem_cons.1 hss
    exact .body (mem_rootStates_of_eq hs') hss
  | «section» hss =>
    obtain ⟨hs', hss⟩ := List.forall_mem_cons.1 hss
    exact .body (mem_rootStates_of_eq hs') hss
  | subsection hss => exact .section hss
  | subsubsection hss => exact .subsection hss

/-- A subsection is closed and its section becomes a body. -/
theorem Levels.redirect (h : Levels ⟨.subsection, s' :: ss⟩) : Levels ⟨.body, ss⟩ := by
  cases h with
  | body hs => exact absurd hs (by decide)
  | subsection hss => exact .body (by decide) hss

/-- A leaf may lead along the state chain. -/
theorem Levels.leaf {n : Node} (h : Levels ⟨s, ss⟩) (hleaf : Leaf x s s' n) : Levels ⟨s', ss⟩ := by
  cases hleaf with
  | paragraph | preformatted | header => exact h
  | stateA | stateB | stateC => exact .body (by decide) (h.bodies (by decide))

/-- What opens a frame is a heading, or an item in a list. -/
theorem Levels.opened {e : Element} (h : Levels ⟨s, ss⟩) (hopens : Opens x s s' e) :
    Levels ⟨s', s :: ss⟩ := by
  cases hopens with
  | «section» hs =>
    exact .section (List.forall_mem_cons.2 ⟨hs, h.bodies (mem_rootStates_of_eq hs)⟩)
  | subsection =>
    cases h with
    | body hs => exact absurd hs (by decide)
    | «section» hss => exact .subsection hss
  | subsubsection =>
    cases h with
    | body hs => exact absurd hs (by decide)
    | subsection hss => exact .subsubsection hss
  | item => exact absurd (listOf_mem_listStates _) (h.noLists _ List.mem_cons_self)

/-! ### Stacks with lists -/

/-- The stacks where children are built, with the chunks to come. -/
inductive Fits : StateStack State → List String → Prop where
  /-- No list is open. -/
  | levels {σ : StateStack State} {xs : List String} : Levels σ → Fits σ xs
  /-- An item is on top, in lists of different classes. -/
  | item {σ : StateStack State} {k : ListClass} {ks : List ListClass} {xs : List String} :
      Levels σ → σ.top ∈ sectionStates → (k :: ks).Nodup → Fits (nest (k :: ks) σ) xs
  /-- A list is on top. The head chunk has closed its last item, so it is no item of a class that is
  not open. -/
  | list {σ : StateStack State} {k : ListClass} {ks : List ListClass} {xs : List String} :
      Levels σ → σ.top ∈ sectionStates → (k :: ks).Nodup →
      (∀ x ∈ xs.head?, ∀ k', itemClass? x = some k' → k' ∈ k :: ks) →
      Fits ((nest ks σ).push (listOf k).1) xs

theorem fits_nest (hσ : Levels σ) (htop : σ.top ∈ sectionStates) (hks : ks.Nodup)
    (xs : List String) : Fits (nest ks σ) xs := by
  cases ks with
  | nil => exact .levels hσ
  | cons k ks => exact .item hσ htop hks

/-- In an item a list item of an open class stops the frame, and another one starts a list. -/
theorem transition?_item_of_nest (hσ : NoLists σ) (k : ListClass) (ks : List ListClass)
    {k' : ListClass} (hx : itemClass? x = some k') :
    grammar.transition? (nest (k :: ks) σ) x = some (itemSymbol k',
      if k' ∈ k :: ks then .stop else .childIn (listOf k').2 (listOf k').1) := by
  have hother := transition?_item_of_other hx (σ := nest (k :: ks) σ)
    (show State.listItem ∈ listStates by decide) (listItem_ne_listOf k')
  rw [contains_nest hσ] at hother
  simpa using hother

/-- In a list a list item of another open class stops the frame. -/
theorem transition?_item_of_list (hσ : NoLists σ) {k' : ListClass} (hx : itemClass? x = some k')
    (hne : k' ≠ k) (hmem : k' ∈ ks) :
    grammar.transition? ((nest ks σ).push (listOf k).1) x = some (itemSymbol k', .stop) := by
  have hother := transition?_item_of_other hx (σ := (nest ks σ).push (listOf k).1)
    (listOf_mem_listStates k) (fun h ↦ hne (listOf_injective h).symm)
  have hopen : ((nest ks σ).push (listOf k).1).contains (listOf k').1 = true := by
    have hnest := contains_nest hσ ks k'
    rw [decide_eq_true hmem, StateStack.contains_iff] at hnest
    rw [StateStack.contains_iff, StateStack.toList_push]
    exact List.mem_append_left _ hnest
  rwa [hopen, if_pos rfl] at hother

/-- Where a chunk stops the frame the machine opens none. -/
theorem length_below_of_stop {w : Pile Element} {y : Symbol}
    (ht : grammar.transition? σ x = some (y, .stop))
    (hstep : design.step design.pile grammar ⟨σ, w, x :: xs⟩ = .inl c') :
    c'.stack.below.length < σ.below.length := by
  obtain ⟨top, below⟩ := σ
  simp only [Design.step, ht] at hstep
  cases below with
  | nil => cases hstep
  | cons s below =>
    cases hstep
    exact Nat.lt_succ_self _

/-- What opens a frame for one element is a state of sections, or a list of the chunk's class. -/
theorem Opens.source {e : Element} (h : Opens x s s' e) :
    s ∉ listStates ∨ ∃ k, s = (listOf k).1 ∧ s' = .listItem := by
  cases h with
  | «section» hs =>
    left
    rcases hs with rfl | rfl <;> decide
  | subsection => exact .inl (by decide)
  | subsubsection => exact .inl (by decide)
  | @item k => exact .inr ⟨k, rfl, rfl⟩

theorem Leaf.not_mem_listStates {n : Node} (h : Leaf x s s' n) : s ∉ listStates := by
  have hsections : ∀ s ∈ sectionStates, s ∉ listStates := by decide
  cases h with
  | paragraph hs =>
    rcases hs with hs | rfl
    · exact hsections s hs
    · decide
  | preformatted hs => exact hsections s hs
  | header | stateA | stateB | stateC => decide

/-- What a step of the machine leads to when an item is on top. -/
theorem fits_step_item (hσ : Levels σ) (htop : σ.top ∈ sectionStates) (hks : (k :: ks).Nodup)
    {w : Pile Element} (hmove : Move ⟨nest (k :: ks) σ, w, xs⟩ c')
    (hstep : design.step design.pile grammar ⟨nest (k :: ks) σ, w, xs⟩ = .inl c') :
    Fits c'.stack c'.rest := by
  have hitem : State.listItem ∈ listStates := by decide
  cases hmove with
  | @close _ _ _ e e' es =>
    refine .list hσ htop hks fun x hx k' hk' ↦ ?_
    obtain ⟨xs, rfl⟩ : ∃ rest, xs = x :: rest := by
      cases xs with
      | nil => cases hx
      | cons y xs => exact ⟨xs, by rw [Option.some.inj hx]⟩
    -- an item of another class would have opened a list
    by_contra hmem
    have ht := transition?_item_of_nest hσ.noLists k ks hk'
    rw [if_neg hmem] at ht
    obtain ⟨list, hlist⟩ := exists_listElement hk'
    have hnext := Sum.inl.inj (hstep.symm.trans (step_of_list ht hlist))
    exact listItem_ne_listOf k (congrArg (fun c : Config ↦ c.stack.top) hnext).symm
  | leaf hleaf => exact absurd hitem hleaf.not_mem_listStates
  | opened hopens =>
    rcases hopens.source with hlist | ⟨k', hk', -⟩
    · exact absurd hitem hlist
    · exact absurd hk' (listItem_ne_listOf k')
  | @list _ _ _ _ _ x xs k' _ hk' he =>
    have hmem : k' ∉ k :: ks := by
      intro hmem
      have ht := transition?_item_of_nest hσ.noLists k ks hk'
      rw [if_pos hmem] at ht
      have hlt := length_below_of_stop ht hstep
      simp [nest, StateStack.push] at hlt
      omega
    exact .item hσ htop (List.nodup_cons.2 ⟨hmem, hks⟩)

/-- What it leads to when a list is on top. -/
theorem fits_step_list (hσ : Levels σ) (htop : σ.top ∈ sectionStates) (hks : (k :: ks).Nodup)
    (hhead : ∀ x ∈ xs.head?, ∀ k', itemClass? x = some k' → k' ∈ k :: ks)
    {w : Pile Element} (hmove : Move ⟨(nest ks σ).push (listOf k).1, w, xs⟩ c')
    (hstep : design.step design.pile grammar ⟨(nest ks σ).push (listOf k).1, w, xs⟩ = .inl c') :
    Fits c'.stack c'.rest := by
  have hlist := listOf_mem_listStates k
  generalize hs : (listOf k).1 = s at hmove hstep hlist
  cases hmove with
  | close => exact fits_nest hσ htop (List.nodup_cons.1 hks).2 _
  | redirect => exact absurd hlist (by decide)
  | leaf hleaf => exact absurd hlist hleaf.not_mem_listStates
  | opened hopens =>
    rcases hopens.source with hnot | ⟨k', hk', rfl⟩
    · exact absurd hlist hnot
    · subst hs
      exact .item hσ htop hks
  | @list _ _ e _ es x xs k' _ hk' he =>
    -- the item joins this list or one below it
    subst hs
    have hmem := hhead x rfl k' hk'
    by_cases heq : k' = k
    · subst heq
      have ht := transition?_item_of_own (σ := (nest ks σ).push (listOf k').1) hk' rfl
      have hnext := Sum.inl.inj (hstep.symm.trans (step_of_container ht rfl rfl))
      have hlength := congrArg (fun c : Config ↦ c.stack.below.length) hnext
      simp at hlength
    · have hbelow : k' ∈ ks := (List.mem_cons.1 hmem).resolve_left heq
      have ht := transition?_item_of_list hσ.noLists hk' heq hbelow
      have hlt := length_below_of_stop ht hstep
      simp [StateStack.push] at hlt
      omega

/-- **One step.** -/
theorem Fits.step (h : Fits c.stack c.rest) (hmove : Move c c')
    (hstep : design.step design.pile grammar c = .inl c') : Fits c'.stack c'.rest := by
  obtain ⟨σ, w, xs⟩ := c
  cases h with
  | levels hσ =>
    cases hmove with
    | close => exact .levels hσ.pop
    | redirect => exact .levels hσ.redirect
    | leaf hleaf => exact .levels (hσ.leaf hleaf)
    | opened hopens => exact .levels (hσ.opened hopens)
    | @list s ss _ _ _ _ _ k hs hx =>
      have hsection : s ∈ sectionStates := hs.resolve_right (hσ.noLists s List.mem_cons_self)
      have hfits : ∀ xs, Fits (nest [k] ⟨s, ss⟩) xs := fun xs ↦ .item hσ hsection (by simp)
      exact hfits _
  | item hσ htop hks => exact fits_step_item hσ htop hks hmove hstep
  | list hσ htop hks hhead => exact fits_step_list hσ htop hks hhead hmove hstep

/-- **A run.** -/
theorem fits_of_leads {chunks : List String}
    (h : design.Leads design.pile grammar (beginning chunks) c) :
    Stands chunks c ∧ Fits c.stack c.rest := by
  induction h with
  | refl => exact ⟨stands_beginning chunks, .levels (.body (by decide) (by intro s hs; cases hs))⟩
  | tail _ hstep ih =>
    have hnext := next ih.1
    rw [hstep] at hnext
    cases hnext with
    | move hmove => exact ⟨hmove.stands ih.1, ih.2.step hmove hstep⟩

/-- Stacks have this form wherever the parse builds children. -/
theorem fits_of_reaches {chunks : List String} {n : Nat} {d : Session Maker String State Symbol}
    (h : parser.Reaches (.ofList chunks) n .building d) : Fits d.stack d.rest := by
  have hroot : design.shape parser.grammar.initialConstructor = .root (Element.ofKind "body") := rfl
  obtain ⟨w, hleads⟩ := describes.leads_of_reaches design.pile_keeps hroot h
  rw [Lookahead.toList_ofList] at hleads
  exact (fits_of_leads hleads).2

end FragmentParser.Outline
