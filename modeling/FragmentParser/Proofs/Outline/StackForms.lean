import FragmentParser.Proofs.Outline.Outcome
import FragmentParser.Proofs.Outline.Stacks
import FragmentParser.Proofs.Trace.Recorded
import Mathlib.Data.List.Nodup

/-!
# The stacks of outline traces

The stack of a step from the bottom, as it is written in a trace: bodies, then sections by their
depth, then the frames of lists and items by turns (`IsRegular`).

Steps are recorded where children are built, and there the stack has this form
(`Fits.isRegular`). Two kinds of them are recorded with another stack. The state chain moves a body
to another state, and the form stays (`Fits.replaceTop`). But a redirection makes the section below
a subsection a body **while the subsection is still open**, and so there is a subsection on bodies
(`IsRedirected`, `Fits.replaceCaller`). There is no other exception (`trace_stacks`).
-/

namespace FragmentParser.Outline

variable {s : State} {ss : List State} {σ : StateStack State} {x : String} {xs : List String}
  {ks : List ListClass}

/-! ### From the bottom -/

/-- The frames of lists and their items, the outermost first. -/
def listFrames (ks : List ListClass) : List State := ks.flatMap fun k ↦ [(listOf k).1, .listItem]

/-- The frames of bodies, the root first. -/
structure IsBodies (bodies : List State) : Prop where
  /-- There is the root. -/
  ne_nil : bodies ≠ []
  /-- All of them are in states of the root. -/
  mem : ∀ s ∈ bodies, s ∈ rootStates
  /-- A section has begun in all but the last one. -/
  below : ∀ s ∈ bodies.dropLast, s = .body ∨ s = .stateC

/-- The parts of a stack, from the bottom. -/
structure Parts (bodies levels lists : List State) : Prop where
  /-- At the bottom there are bodies. -/
  isBodies : IsBodies bodies
  /-- Then come a section, its subsection and the subsubsection of that, as far as they are open. -/
  isPrefix : levels <+: [.section, .subsection, .subsubsection]
  /-- Then come lists of different classes with their items, cut off anywhere. -/
  exists_classes : ∃ ks : List ListClass, ks.Nodup ∧ lists <+: listFrames ks
  /-- Lists are in sections, or in a body that is not in the state chain. -/
  inSection : lists ≠ [] → levels ≠ [] ∨ bodies.getLast? = some .body

/-- The states of a stack, from the bottom. -/
def IsRegular (states : List State) : Prop :=
  ∃ bodies levels lists, states = bodies ++ levels ++ lists ∧ Parts bodies levels lists

/-- The states of a stack in which a section has become a body below its subsection. -/
def IsRedirected (states : List State) : Prop :=
  ∃ bodies, states = bodies ++ [.subsection] ∧ IsBodies bodies ∧ 2 ≤ bodies.length ∧
    bodies.getLast? = some .body

theorem listFrames_append (ks ks' : List ListClass) :
    listFrames (ks ++ ks') = listFrames ks ++ listFrames ks' := List.flatMap_append

theorem toList_nest (ks : List ListClass) (σ : StateStack State) :
    (nest ks σ).toList = σ.toList ++ listFrames ks.reverse := by
  induction ks with
  | nil => exact (List.append_nil _).symm
  | cons k ks ih =>
    rw [nest, StateStack.toList_push, StateStack.toList_push, ih, List.reverse_cons,
      listFrames_append, List.append_assoc, List.append_assoc]
    rfl

theorem isBodies_reverse (hs : s ∈ rootStates) (hss : Bodies ss) : IsBodies (s :: ss).reverse where
  ne_nil := by simp
  mem s' hs' := by
    rcases List.mem_cons.1 (List.mem_reverse.1 hs') with rfl | hs'
    · exact hs
    · exact mem_rootStates_of_eq (hss s' hs')
  below s' hs' := by
    rw [List.reverse_cons, List.dropLast_concat] at hs'
    exact hss s' (List.mem_reverse.1 hs')

theorem Bodies.isBodies_reverse (hss : Bodies (s :: ss)) : IsBodies (s :: ss).reverse :=
  Outline.isBodies_reverse (mem_rootStates_of_eq (hss s List.mem_cons_self))
    (List.forall_mem_cons.1 hss).2

/-- Stacks without lists from the bottom, with lists on top. -/
theorem Levels.isRegular (hσ : Levels σ) {lists : List State}
    (hlists : ∃ ks : List ListClass, ks.Nodup ∧ lists <+: listFrames ks)
    (htop : lists ≠ [] → σ.top ∈ sectionStates) : IsRegular (σ.toList ++ lists) := by
  cases hσ with
  | @body s ss hs hss =>
    refine ⟨(s :: ss).reverse, [], lists, by rw [List.append_nil]; rfl, isBodies_reverse hs hss,
      List.nil_prefix, hlists, fun hne ↦ .inr ?_⟩
    have hbody : s = .body := by
      have hsection : s ∈ sectionStates := htop hne
      revert hs hsection
      cases s <;> decide
    rw [List.getLast?_reverse, hbody]
    rfl
  | @«section» s ss hss =>
    exact ⟨(s :: ss).reverse, [.section], lists, by simp [StateStack.toList],
      hss.isBodies_reverse, by simp, hlists, fun _ ↦ .inl (List.cons_ne_nil _ _)⟩
  | @subsection s ss hss =>
    exact ⟨(s :: ss).reverse, [.section, .subsection], lists, by simp [StateStack.toList],
      hss.isBodies_reverse, by simp, hlists, fun _ ↦ .inl (List.cons_ne_nil _ _)⟩
  | @subsubsection s ss hss =>
    exact ⟨(s :: ss).reverse, [.section, .subsection, .subsubsection], lists,
      by simp [StateStack.toList], hss.isBodies_reverse, by simp, hlists,
      fun _ ↦ .inl (List.cons_ne_nil _ _)⟩

theorem Fits.isRegular (h : Fits σ xs) : IsRegular σ.toList := by
  cases h with
  | levels hσ =>
    have hregular := hσ.isRegular ⟨[], .nil, List.nil_prefix⟩ (fun hne ↦ absurd rfl hne)
    rwa [List.append_nil] at hregular
  | @item σ k ks _ hσ htop hks =>
    rw [toList_nest]
    exact hσ.isRegular ⟨(k :: ks).reverse, List.nodup_reverse.2 hks, List.prefix_rfl⟩ fun _ ↦ htop
  | @list σ k ks _ hσ htop hks =>
    rw [StateStack.toList_push, toList_nest, List.append_assoc]
    refine hσ.isRegular ⟨(k :: ks).reverse, List.nodup_reverse.2 hks, [.listItem], ?_⟩ fun _ ↦ htop
    rw [List.reverse_cons, listFrames_append, List.append_assoc]
    rfl

/-! ### The stacks of steps -/

/-- The stack of the step has its form, which is another one if the step redirects a frame. -/
def InForm (step : Step Maker String State Symbol) : Prop :=
  match step.event with
  | .callerReplaced _ _ => IsRedirected step.stack.toList
  | _ => IsRegular step.stack.toList

/-- A frame that is moved along the state chain is that of a body. -/
theorem Fits.replaceTop {m : Maker} (h : Fits σ xs) (htakes : Takes x σ.top m (some s))
    (hframe : Constructor.frame m = .shared) : IsRegular (σ.replaceTop s).toList := by
  have htop : σ.top ∈ rootStates := by
    generalize σ.top = top at htakes
    cases htakes with
    | stateA | stateB | stateC => decide
    | «section» | subsection | subsubsection | item => cases hframe
    | @list _ k =>
      cases k <;> cases hframe
  have hnotList : ∀ s ∈ rootStates, s ∉ listStates := by decide
  cases h with
  | levels hσ =>
    have hbodies := hσ.bodies htop
    have hlevels : Levels (σ.replaceTop s) := .body (htakes.mem_rootStates hframe) hbodies
    have hfits : Fits (σ.replaceTop s) [] := .levels hlevels
    exact hfits.isRegular
  | item => exact absurd (show State.listItem ∈ listStates by decide) (hnotList _ htop)
  | list => exact absurd (listOf_mem_listStates _) (hnotList _ htop)

/-- A subsection that redirects its section stands on a section. -/
theorem Fits.replaceCaller {old : State} {τ : StateStack State} (h : Fits σ xs)
    (htop : σ.top = .subsection) (hτ : σ.replaceCaller? .body = some (old, τ)) :
    IsRedirected τ.toList := by
  cases h with
  | levels hσ =>
    cases hσ with
    | body hs =>
      subst htop
      exact absurd hs (by decide)
    | @subsection s ss hss =>
      cases hτ
      have hbodies : IsBodies (.body :: s :: ss).reverse := isBodies_reverse (by decide) hss
      refine ⟨_, List.reverse_cons, hbodies, ?_, ?_⟩
      · simp
      · rw [List.getLast?_reverse]
        rfl
    | «section» | subsubsection => cases htop
  | item => cases htop
  | @list _ k => cases k <;> cases htop

/-- The stack of every step that is recorded where children are built. -/
theorem Fits.inForm {d : Session Maker String State Symbol} (h : Fits d.stack d.rest)
    {step : Step Maker String State Symbol} (hnotes : d.Notes grammar step) : InForm step := by
  cases hnotes with
  | children | exhausted | analyzed | transition => exact h.isRegular
  | topReplaced hrest ht hframe => exact h.replaceTop (may_of_transition? ht) hframe
  | callerReplaced hrest ht hσ =>
    obtain ⟨htop, rfl, -⟩ : d.stack.top = .subsection ∧ _ = State.body ∧ _ :=
      may_of_transition? ht
    exact h.replaceCaller htop hσ

/-! ### What follows from the form -/

theorem mem_listStates_of_mem_listFrames (h : s ∈ listFrames ks) : s ∈ listStates := by
  obtain ⟨k, -, hs⟩ := List.mem_flatMap.1 h
  rcases List.mem_cons.1 hs with rfl | hs
  · exact listOf_mem_listStates k
  · rw [List.mem_singleton.1 hs]
    decide

theorem count_listFrames (ks : List ListClass) (k : ListClass) :
    (listFrames ks).count (listOf k).1 = ks.count k := by
  induction ks with
  | nil => rfl
  | cons k' ks ih =>
    have hiff : (listOf k').1 = (listOf k).1 ↔ k' = k := ⟨listOf_injective, fun h ↦ h ▸ rfl⟩
    have hcons : listFrames (k' :: ks) = (listOf k').1 :: .listItem :: listFrames ks := rfl
    rw [hcons, List.count_cons, List.count_cons, ih, List.count_cons]
    simp [hiff, listItem_ne_listOf]

/-- Lists on top of other frames: each list state is there once, and nothing but lists and items is
above one. -/
theorem lists_on_top {lower lists : List State} (hlower : ∀ s ∈ lower, s ∉ listStates)
    (hlists : ∃ ks : List ListClass, ks.Nodup ∧ lists <+: listFrames ks) :
    (∀ k, (lower ++ lists).count (listOf k).1 ≤ 1) ∧
      (lower ++ lists).Pairwise fun s s' ↦ s ∈ listStates → s' ∈ listStates := by
  obtain ⟨ks, hks, hcut⟩ := hlists
  have hmem : ∀ s ∈ lists, s ∈ listStates := fun s hs ↦
    mem_listStates_of_mem_listFrames (hcut.subset hs)
  refine ⟨fun k ↦ ?_, List.pairwise_append.2 ⟨?_, ?_, ?_⟩⟩
  · have hnone : (listOf k).1 ∉ lower := fun h ↦ hlower _ h (listOf_mem_listStates k)
    calc (lower ++ lists).count (listOf k).1
      _ = lists.count (listOf k).1 := by
        rw [List.count_append, List.count_eq_zero_of_not_mem hnone, Nat.zero_add]
      _ ≤ (listFrames ks).count (listOf k).1 := hcut.sublist.count_le _
      _ = ks.count k := count_listFrames ks k
      _ ≤ 1 := List.nodup_iff_count_le_one.1 hks k
  · exact List.pairwise_of_forall_mem_list fun s hs _ _ h ↦ absurd h (hlower s hs)
  · exact List.pairwise_of_forall_mem_list fun _ _ s' hs' _ ↦ hmem s' hs'
  · exact fun _ _ s' hs' _ ↦ hmem s' hs'

/-- At the bottom there is a state of the root. -/
theorem IsBodies.head?_ne {bodies : List State} (h : IsBodies bodies) (upper : List State) :
    (bodies ++ upper).head? ≠ some .subsection := by
  obtain ⟨s, bodies, rfl⟩ := List.exists_cons_of_ne_nil h.ne_nil
  intro hs
  cases hs
  exact absurd (h.mem _ List.mem_cons_self) (by decide)

theorem IsBodies.not_mem_listStates {bodies : List State} (h : IsBodies bodies) :
    ∀ s ∈ bodies, s ∉ listStates := by
  have hroot : ∀ s ∈ rootStates, s ∉ listStates := by decide
  exact fun s hs ↦ hroot s (h.mem s hs)

/-- In stacks of either form no list state is there twice, nothing but lists and items is above one,
and there is no subsection at the bottom. -/
theorem InForm.lists_apart {step : Step Maker String State Symbol} (h : InForm step) :
    (∀ k, step.stack.toList.count (listOf k).1 ≤ 1) ∧
      (step.stack.toList.Pairwise fun s s' ↦ s ∈ listStates → s' ∈ listStates) ∧
      step.stack.toList.head? ≠ some .subsection := by
  have hform : IsRegular step.stack.toList ∨ IsRedirected step.stack.toList := by
    unfold InForm at h
    split at h
    · exact .inr h
    · exact .inl h
  obtain ⟨bodies, levels, lists, heq, hparts⟩ | ⟨bodies, heq, hbodies, -⟩ := hform
  · have hlevel : ∀ s ∈ [State.section, .subsection, .subsubsection], s ∉ listStates := by decide
    have hlower : ∀ s ∈ bodies ++ levels, s ∉ listStates := fun s hs ↦
      (List.mem_append.1 hs).elim (hparts.isBodies.not_mem_listStates s)
        fun hs ↦ hlevel s (hparts.isPrefix.subset hs)
    obtain ⟨hcount, habove⟩ := lists_on_top hlower hparts.exists_classes
    rw [heq]
    refine ⟨hcount, habove, ?_⟩
    rw [List.append_assoc]
    exact hparts.isBodies.head?_ne _
  · have hlower : ∀ s ∈ bodies ++ [State.subsection], s ∉ listStates := fun s hs ↦
      (List.mem_append.1 hs).elim (hbodies.not_mem_listStates s) fun hs ↦ by
        rw [List.mem_singleton.1 hs]
        decide
    obtain ⟨hcount, habove⟩ := lists_on_top hlower ⟨[], .nil, List.nil_prefix⟩
    rw [List.append_nil] at hcount habove
    rw [heq]
    exact ⟨hcount, habove, hbodies.head?_ne _⟩

/-- **The stacks of an outline parse.** Every parse has a trace, and at every step of it the stack
is made of bodies, then sections by their depth, then lists of different classes with their items;
only where a redirection is recorded there is a subsection on bodies. So no list state is on a stack
twice, nothing but lists and items is above a list, and no subsection is at the bottom. -/
theorem trace_stacks (chunks : List String) : ∃ outcome d,
    (∀ bound, chunkBound chunks ≤ bound →
      parser.run bound (.ofList chunks) = some (outcome, d)) ∧
    CatalogEntry.outline.parse chunks = ⟨some outcome, d.steps.map Step.line⟩ ∧
    ∀ step ∈ d.steps, InForm step ∧
      (∀ k, step.stack.toList.count (listOf k).1 ≤ 1) ∧
      (step.stack.toList.Pairwise fun s s' ↦ s ∈ listStates → s' ∈ listStates) ∧
      step.stack.toList.head? ≠ some .subsection := by
  obtain ⟨outcome, d, hrun⟩ := describes.exists_run chunks
  have h := hrun _ (Nat.le_refl _)
  refine ⟨outcome, d, hrun, ?_, fun step hstep ↦ ?_⟩
  · show parser.report (chunkBound chunks) chunks = _
    rw [Parser.report, h]
  · obtain ⟨n, e, hreach, hnotes⟩ := Parser.exists_notes_of_run h step hstep
    have hform : InForm step := (fits_of_reaches hreach).inForm hnotes
    exact ⟨hform, hform.lists_apart⟩

end FragmentParser.Outline
