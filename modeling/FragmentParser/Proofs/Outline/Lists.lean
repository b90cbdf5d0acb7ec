import FragmentParser.Proofs.Outline.Moves

/-!
# Lists in outline parses

When lists are open their frames lie on top of all others, a list's frame and its item's by turns,
and **each class is open once** at most: `nest ks σ` is the stack `σ` with lists of the classes `ks`
on it, the innermost class first. The rule that lists consult (`sublistOrParent`) asks the whole
stack whether a class is open, and with stacks of this form the answer is whether it is in `ks`.

So an item of an open class closes the lists inside the one of its class and joins it
(`grow_item_join`), an item of another class starts a list inside the innermost item
(`grow_item_new`), and any other chunk closes all lists or none, and then it ends the parse
(`grow_close_lists`, `grow_in_lists_of_none`).
-/

namespace FragmentParser.Outline

/-- The class of a chunk that is a list item. -/
def itemClass? (x : String) : Option ListClass := (listStyle? x.toList).map ListStyle.listClass

/-- The symbol of list items of a class. -/
def itemSymbol : ListClass → Symbol
  | .decimal => .liDecimal
  | .roman => .liRoman
  | .alpha => .liAlpha

/-- A list with its first item. -/
def listNode (style : ListStyle) (x : String) : Node :=
  (((Element.ofKind "ordered-list").withAttribute "type" style.name).append
    (itemElement x).toNode).toNode

/-- Whether a chunk that is no list item is accepted in lists, which it ends. -/
def endsLists (x : String) : Bool := stopEntries.any fun e ↦ e.2.1 x

/-- The states of lists and their items. -/
def listStates : List State := [.olDecimal, .olAlpha, .olRoman, .listItem]

/-- No list is open. -/
def NoLists (σ : StateStack State) : Prop := ∀ s ∈ σ.top :: σ.below, s ∉ listStates

/-- The frames of lists of the given classes, the innermost first, and of their items. -/
def nest : List ListClass → StateStack State → StateStack State
  | [], σ => σ
  | k :: ks, σ => ((nest ks σ).push (listOf k).1).push .listItem

variable {σ : StateStack State} {t : Node} {x : String} {xs : List String} {k : ListClass}
  {ks : List ListClass}

@[simp] theorem length_below_nest (ks : List ListClass) (σ : StateStack State) :
    (nest ks σ).below.length = σ.below.length + 2 * ks.length := by
  induction ks with
  | nil => rfl
  | cons k ks ih =>
    simp only [nest, StateStack.push, List.length_cons, ih]
    omega

theorem listOf_injective {k k' : ListClass} (h : (listOf k).1 = (listOf k').1) : k = k' := by
  cases k <;> cases k' <;> first | rfl | cases h

theorem listItem_ne_listOf (k : ListClass) : State.listItem ≠ (listOf k).1 := by
  cases k <;> decide

/-- A class is open if its state is on the stack. -/
theorem contains_nest (hσ : NoLists σ) (ks : List ListClass) (k : ListClass) :
    (nest ks σ).contains (listOf k).1 = decide (k ∈ ks) := by
  have hitem := (listItem_ne_listOf k).symm
  induction ks with
  | nil =>
    have hnot : (listOf k).1 ∉ σ.top :: σ.below := fun hmem ↦
      hσ _ hmem (by cases k <;> simp [listOf, listStates])
    simpa [nest, StateStack.contains] using hnot
  | cons k' ks ih =>
    have hpush : ∀ (τ : StateStack State) s s', (τ.push s).contains s' =
        (decide (s' = s) || τ.contains s') := by
      intro τ s s'
      simp [StateStack.contains, StateStack.push]
    have hk : (listOf k).1 = (listOf k').1 ↔ k = k' := ⟨listOf_injective, fun h ↦ h ▸ rfl⟩
    simp [nest, hpush, ih, hitem, hk]

/-! ### List items in the table -/

/-- A list item finds its entry, and other chunks find theirs behind those for items. -/
theorem find?_itemEntries (rule : ListClass → Rule Maker State Symbol) (rest : List Entry)
    (x : String) : (itemEntries rule ++ rest).find? (fun e ↦ e.2.1 x) =
      match itemClass? x with
      | some k => some (itemSymbol k, isItemOf k, rule k)
      | none => rest.find? fun e ↦ e.2.1 x := by
  have hitem : ∀ k, isItemOf k x = decide (itemClass? x = some k) := by
    intro k
    rw [isItemOf, itemClass?]
    cases listStyle? x.toList <;> simp
  rcases hx : itemClass? x with _ | k
  · simp [itemEntries, hitem, hx]
  · cases k <;> simp [itemEntries, hitem, hx, itemSymbol]

theorem sublistOrParent_itemSymbol (k : ListClass) (σ : StateStack State) :
    sublistOrParent (itemSymbol k) σ =
      if σ.contains (listOf k).1 then .stop else .childIn (listOf k).2 (listOf k).1 := by
  cases k <;> rfl

/-- Among sections a list item starts a list. -/
theorem transition?_item_of_section (hx : itemClass? x = some k) (hσ : σ.top ∈ sectionStates) :
    grammar.transition? σ x = some (itemSymbol k, .childIn (listOf k).2 (listOf k).1) := by
  have hrow : tableRow σ.top = itemEntries startList ++ plainEntries σ.top := by
    simp only [sectionStates, List.mem_cons, List.not_mem_nil, or_false] at hσ
    rcases hσ with h | h | h | h <;> rw [h] <;> rfl
  rw [transition?_eq, hrow, find?_itemEntries, hx]
  rfl

/-- In a list of its class a list item is the next item. -/
theorem transition?_item_of_own (hx : itemClass? x = some k) (hσ : σ.top = (listOf k).1) :
    grammar.transition? σ x = some (itemSymbol k, .childIn .listItem .listItem) := by
  have hrow : tableRow σ.top = itemEntries (joinList k) ++ stopEntries := by
    rw [hσ]
    cases k <;> rfl
  rw [transition?_eq, hrow, find?_itemEntries, hx]
  simp [joinList, Rule.resolve]

/-- Elsewhere in lists the rest of the stack decides. -/
theorem transition?_item_of_other (hx : itemClass? x = some k) (hσ : σ.top ∈ listStates)
    (hk : σ.top ≠ (listOf k).1) : grammar.transition? σ x = some (itemSymbol k,
      if σ.contains (listOf k).1 then .stop else .childIn (listOf k).2 (listOf k).1) := by
  have hrow : ∃ rule, tableRow σ.top = itemEntries rule ++ stopEntries ∧
      rule k = .computed sublistOrParent := by
    simp only [listStates, List.mem_cons, List.not_mem_nil, or_false] at hσ
    rcases hσ with h | h | h | h
    · exact ⟨joinList .decimal, by rw [h]; rfl, if_neg fun hd ↦ hk (by rw [h, hd]; rfl)⟩
    · exact ⟨joinList .alpha, by rw [h]; rfl, if_neg fun ha ↦ hk (by rw [h, ha]; rfl)⟩
    · exact ⟨joinList .roman, by rw [h]; rfl, if_neg fun hr ↦ hk (by rw [h, hr]; rfl)⟩
    · exact ⟨fun _ ↦ .computed sublistOrParent, by rw [h]; rfl, rfl⟩
  obtain ⟨rule, hrow, hrule⟩ := hrow
  rw [transition?_eq, hrow, find?_itemEntries, hx]
  simp [hrule, Rule.resolve, sublistOrParent_itemSymbol]

/-- In lists and items a chunk that is no list item stops the frame if it is accepted. -/
theorem transition?_other_of_list (hx : itemClass? x = none) (hσ : σ.top ∈ listStates) :
    (endsLists x = true → ∃ y, grammar.transition? σ x = some (y, .stop)) ∧
      (endsLists x = false → grammar.transition? σ x = none) := by
  have hrow : ∃ rule, tableRow σ.top = itemEntries rule ++ stopEntries := by
    simp only [listStates, List.mem_cons, List.not_mem_nil, or_false] at hσ
    rcases hσ with h | h | h | h <;> rw [h] <;> exact ⟨_, rfl⟩
  obtain ⟨rule, hrow⟩ := hrow
  rw [transition?_eq, hrow, find?_itemEntries, hx, endsLists]
  constructor
  · intro hends
    obtain ⟨e, he⟩ := List.find?_isSome.2 (List.any_eq_true.1 hends) |> Option.isSome_iff_exists.1
    have hstop : ∀ e ∈ stopEntries, e.2.2 = .fixed .stop := by
      simp [stopEntries]
    refine ⟨e.1, ?_⟩
    rw [he, Option.map_some, hstop e (List.mem_of_find?_eq_some he)]
    rfl
  · intro hends
    have hnone : stopEntries.find? (fun e ↦ e.2.1 x) = none :=
      List.find?_eq_none.2 fun e he ↦ by simpa using List.any_eq_false.1 hends e he
    rw [hnone]
    rfl

/-! ### The moves in lists -/

/-- A chunk that is no list item and is accepted in lists closes them all. -/
theorem grow_close_lists (hx : itemClass? x = none) (hends : endsLists x = true)
    (ks : List ListClass) : grow (nest ks σ) t (x :: xs) = grow σ t (x :: xs) := by
  induction ks with
  | nil => rfl
  | cons k ks ih =>
    have hitem : State.listItem ∈ listStates := by simp [listStates]
    have hlist : (listOf k).1 ∈ listStates := by cases k <;> simp [listOf, listStates]
    obtain ⟨y, hy⟩ := (transition?_other_of_list hx (σ := ((nest ks σ).push (listOf k).1).push
      .listItem) hitem).1 hends
    obtain ⟨y', hy'⟩ := (transition?_other_of_list hx (σ := (nest ks σ).push (listOf k).1)
      hlist).1 hends
    rw [nest, grow_of_stop hy, grow_of_stop hy', ih]

/-- A chunk that is no list item and is not accepted in lists ends the parse there. -/
theorem grow_in_lists_of_none (hx : itemClass? x = none) (hends : endsLists x = false)
    (k : ListClass) (ks : List ListClass) : ∃ state tried, ∀ t xs,
      grow (nest (k :: ks) σ) t (x :: xs) =
        .error (.noRecognizerMatch (fragmentText x) state tried) := by
  have hitem : State.listItem ∈ listStates := by simp [listStates]
  exact ⟨_, _, fun t xs ↦ grow_of_none ((transition?_other_of_list hx
    (σ := ((nest ks σ).push (listOf k).1).push .listItem) hitem).2 hends)⟩

/-- An item of an open class closes the lists inside the one of its class, and is the next item
there. -/
theorem grow_item_join (hσ : NoLists σ) (hx : itemClass? x = some k) {inner outer : List ListClass}
    (hk : k ∉ inner) : grow (nest (inner ++ k :: outer) σ) t (x :: xs) =
      grow (nest (k :: outer) σ)
        (Node.attach (σ.below.length + 2 * outer.length + 1) (itemElement x).toNode t) xs := by
  have hitem : State.listItem ∈ listStates := by simp [listStates]
  have hne := listItem_ne_listOf k
  have hpush : ∀ (τ : StateStack State) s s', τ.contains s' = true → (τ.push s).contains s' = true := by
    intro τ s s' h
    simp only [StateStack.contains, decide_eq_true_eq] at h ⊢
    exact List.mem_cons_of_mem _ h
  -- on the lists inside: each closes with its item, until the list of the class is on top
  induction inner with
  | nil =>
    have hopen : ((nest outer σ).push (listOf k).1).contains (listOf k).1 = true := by
      simp [StateStack.contains, StateStack.push]
    have hstop := transition?_item_of_other hx (σ := ((nest outer σ).push (listOf k).1).push
      .listItem) hitem hne
    rw [hpush _ _ _ hopen, if_pos rfl] at hstop
    rw [List.nil_append, nest, grow_of_stop hstop, grow_of_container
      (transition?_item_of_own hx (σ := (nest outer σ).push (listOf k).1) rfl) rfl rfl]
    have hdepth : ((nest outer σ).push (listOf k).1).below.length =
        σ.below.length + 2 * outer.length + 1 := by
      rw [← length_below_nest]
      rfl
    rw [hdepth]
  | cons k' inner ih =>
    have hopen : (nest (inner ++ k :: outer) σ).contains (listOf k).1 = true := by
      rw [contains_nest hσ]
      simp
    have hk' : (listOf k').1 ≠ (listOf k).1 := fun h ↦
      hk (listOf_injective h ▸ List.mem_cons_self)
    have hlist : (listOf k').1 ∈ listStates := by cases k' <;> simp [listOf, listStates]
    have hstop := transition?_item_of_other hx (σ := ((nest (inner ++ k :: outer) σ).push
      (listOf k').1).push .listItem) hitem hne
    have hstop' := transition?_item_of_other hx (σ := (nest (inner ++ k :: outer) σ).push
      (listOf k').1) hlist hk'
    rw [hpush _ _ _ (hpush _ _ _ hopen), if_pos rfl] at hstop
    rw [hpush _ _ _ hopen, if_pos rfl] at hstop'
    rw [List.cons_append, nest, grow_of_stop hstop, grow_of_stop hstop',
      ih fun h ↦ hk (List.mem_cons_of_mem _ h)]

/-- An item of a class that is not open starts a list inside the innermost element. -/
theorem grow_item_new (hσ : NoLists σ) {style : ListStyle} (hx : listStyle? x.toList = some style)
    (hks : style.listClass ∉ ks) (htop : ks = [] → σ.top ∈ sectionStates) :
    grow (nest ks σ) t (x :: xs) = grow (nest (style.listClass :: ks) σ)
      (Node.attach (σ.below.length + 2 * ks.length) (listNode style x) t) xs := by
  have hclass : itemClass? x = some style.listClass := by
    rw [itemClass?, hx]
    rfl
  have he : listElement (some x) =
      .ok ((Element.ofKind "ordered-list").withAttribute "type" style.name) := by
    rw [listElement, Option.bind_some, hx]
  have ht : grammar.transition? (nest ks σ) x = some (itemSymbol style.listClass,
      .childIn (listOf style.listClass).2 (listOf style.listClass).1) := by
    rcases ks with _ | ⟨k, ks⟩
    · exact transition?_item_of_section hclass (htop rfl)
    · have hclosed := contains_nest hσ (k :: ks) style.listClass
      rw [decide_eq_false hks] at hclosed
      have hother := transition?_item_of_other hclass (σ := nest (k :: ks) σ)
        (by simp [nest, StateStack.push, listStates])
        (listItem_ne_listOf style.listClass)
      rwa [hclosed, if_neg Bool.false_ne_true] at hother
  rw [grow_of_list ht he, length_below_nest]
  rfl

end FragmentParser.Outline
