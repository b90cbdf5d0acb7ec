import FragmentParser.Proofs.Outline.Lists
import FragmentParser.Proofs.Outline.Numbering
import Mathlib.Data.List.Basic
import Mathlib.Data.List.TakeWhile

/-!
# An outline read from left to right

What an outline parse builds can be said without states, frames and tables. A `Page` is the document
as far as it was read, with the **level** of the innermost open section, `0` being the body's. A
maximal run of list items becomes one list in that section (`runLists`); every other chunk is put on
the page by itself (`Page.put`). A heading goes where its depth says, unless it skips a level, and
what is no heading there is a header line, a preformatted block or a paragraph.

The level is nowhere in a parse. It is the number of frames below the innermost section's, and the
table keeps it by closing frames one at a time, while the same heading is recognized in each.

The page does not know the state chain, so the theorem of this module is about documents in which no
chunk begins with `State A:`.
-/

namespace FragmentParser.Outline

open Text

/-! ### Reading -/

/-- Whether a chunk is a list item. -/
def isItem (chunk : String) : Bool := (listStyle? chunk.toList).isSome

/-- Add an item to the lists of a run. They are given by the classes of those that are open, the
innermost first, and the tree of the outermost. An item of an open class joins the list of its
class; one of another class starts a list inside the last item. -/
def addItem (lists : List ListClass × Node) (chunk : String) : List ListClass × Node :=
  match listStyle? chunk.toList with
  | none => lists
  | some style =>
    let (classes, tree) := lists
    if style.listClass ∈ classes then
      let classes := classes.dropWhile (· ≠ style.listClass)
      (classes, Node.attach (2 * (classes.length - 1)) (itemElement chunk).toNode tree)
    else
      (style.listClass :: classes, Node.attach (2 * classes.length - 1) (listNode style chunk) tree)

/-- The lists of a run that begins with an item of this style. -/
def runLists (style : ListStyle) (first : String) (run : List String) : List ListClass × Node :=
  run.foldl addItem ([style.listClass], listNode style first)

/-- The kind of the sections of a level. -/
def sectionKind : Nat → String
  | 1 => "section"
  | 2 => "subsection"
  | _ => "subsubsection"

/-- A document as far as it was read. -/
structure Page where
  /-- The tree. -/
  tree : Node
  /-- The level of the innermost open section. -/
  level : Nat

namespace Page

/-- The page before the first chunk. -/
def blank : Page := ⟨(Element.ofKind "body").toNode, 0⟩

/-- Add a node to the section of level `n`, which is the innermost from then on. -/
def addAt (p : Page) (n : Nat) (node : Node) : Page := ⟨Node.attach n node p.tree, n⟩

/-- Put a heading of depth `d` on the page. A long one is a header line if it is of depth one. -/
def putHeading (p : Page) (d : Nat) (chunk : String) : Page :=
  if d = 1 ∧ 100 < chunk.toList.length then
    p.addAt 0 (flowElement (Element.ofKind "header") chunk)
  else
    { p.addAt (d - 1) (headingElement (sectionKind d) chunk).toNode with level := d }

/-- Put a chunk on the page that is neither a list item nor a heading that fits there. -/
def putText (p : Page) (chunk : String) : Option Page :=
  if p.level = 0 ∧ isHeader chunk then
    some (p.addAt 0 (flowElement (Element.ofKind "header") chunk))
  else if isPreformatted chunk then
    some (p.addAt p.level ((Element.ofKind "preformatted").withText chunk).toNode)
  else if isParagraph chunk then
    some (p.addAt p.level (flowElement (Element.ofKind "paragraph") chunk))
  else none

/-- Put a chunk on the page that is no list item. A heading fits if its depth is at most one more
than the level. -/
def put (p : Page) (chunk : String) : Option Page :=
  match sectionDepth? chunk.toList with
  | none => p.putText chunk
  | some d =>
    if 1 ≤ d ∧ d ≤ 3 ∧ d ≤ p.level + 1 then some (p.putHeading d chunk) else p.putText chunk

/-- Read on; there is no tree if some chunk cannot be put on the page. -/
def read (p : Page) : List String → Option Node
  | [] => some p.tree
  | chunk :: chunks =>
    match listStyle? chunk.toList with
    | none =>
      match p.put chunk with
      | none => none
      | some p => p.read chunks
    | some style =>
      (p.addAt p.level (runLists style chunk (chunks.takeWhile isItem)).2).read
        (chunks.dropWhile isItem)
termination_by chunks => chunks.length
decreasing_by
  · exact Nat.lt_succ_self _
  · exact Nat.lt_succ_of_le (List.dropWhile_sublist isItem).length_le

@[simp] theorem read_nil (p : Page) : p.read [] = some p.tree := by
  rw [read]

theorem read_of_none (p : Page) {x : String} (xs : List String)
    (h : listStyle? x.toList = none) : p.read (x :: xs) = (p.put x).bind fun p ↦ p.read xs := by
  rw [read, h]
  cases p.put x <;> rfl

theorem read_of_some (p : Page) {x : String} (xs : List String) {style : ListStyle}
    (h : listStyle? x.toList = some style) : p.read (x :: xs) =
      (p.addAt p.level (runLists style x (xs.takeWhile isItem)).2).read (xs.dropWhile isItem) := by
  rw [read, h]

end Page

/-! ### Runs of list items -/

variable {σ : StateStack State} {t : Node} {x : String} {xs : List String}

/-- The parse of a run grows the lists of the run, inside the element that they are in. -/
theorem grow_run (hσ : NoLists σ) {run : List String} (hrun : ∀ x ∈ run, isItem x = true)
    (lists : List ListClass × Node) (hne : lists.1 ≠ []) (xs : List String) :
    grow (nest lists.1 σ) (Node.attach σ.below.length lists.2 t) (run ++ xs) =
      grow (nest (run.foldl addItem lists).1 σ)
        (Node.attach σ.below.length (run.foldl addItem lists).2 t) xs := by
  -- the lists are an element of the page, so depths in the run are one less than in the page
  induction run generalizing lists with
  | nil => rfl
  | cons x run ih =>
    obtain ⟨classes, tree⟩ := lists
    obtain ⟨style, hstyle⟩ := Option.isSome_iff_exists.1 (hrun x List.mem_cons_self)
    have hclass : itemClass? x = some style.listClass := by
      rw [itemClass?, hstyle]
      rfl
    have hrun' : ∀ x ∈ run, isItem x = true := fun x hx ↦ hrun x (List.mem_cons_of_mem _ hx)
    rw [List.cons_append, List.foldl_cons]
    by_cases hk : style.listClass ∈ classes
    · obtain ⟨inner, outer, rfl, hinner⟩ := List.eq_append_cons_of_mem hk
      have hdrop : (inner ++ style.listClass :: outer).dropWhile (· ≠ style.listClass) =
          style.listClass :: outer := by
        rw [List.dropWhile_append_of_pos fun k hk ↦ by simpa using ne_of_mem_of_not_mem hk hinner]
        simp
      have hadd : addItem (inner ++ style.listClass :: outer, tree) x = (style.listClass :: outer,
          Node.attach (2 * outer.length) (itemElement x).toNode tree) := by
        simp only [addItem, hstyle, if_pos hk, hdrop, List.length_cons, Nat.add_sub_cancel]
      have hdepth : σ.below.length + 2 * outer.length + 1 =
          σ.below.length + 1 + 2 * outer.length := by omega
      rw [hadd, grow_item_join hσ hclass hinner, hdepth, Node.attach_attach]
      exact ih hrun' (style.listClass :: outer, _) (List.cons_ne_nil _ _)
    · have hadd : addItem (classes, tree) x = (style.listClass :: classes,
          Node.attach (2 * classes.length - 1) (listNode style x) tree) := by
        simp only [addItem, hstyle, if_neg hk]
      have hlength : 0 < classes.length := List.length_pos_iff.2 hne
      have hdepth : σ.below.length + 2 * classes.length =
          σ.below.length + 1 + (2 * classes.length - 1) := by omega
      rw [hadd, grow_item_new hσ hstyle hk (fun h ↦ absurd h hne), hdepth, Node.attach_attach]
      exact ih hrun' (style.listClass :: classes, _) (List.cons_ne_nil _ _)

/-! ### Headings -/

/-- A heading does not end with a period. -/
theorem getLast?_ne_of_sectionDepth? {cs : List Char} {d : Nat} (h : sectionDepth? cs = some d) :
    cs.getLast? ≠ some '.' := by
  obtain ⟨heading, hheading, -⟩ := Option.map_eq_some_iff.1 h
  obtain ⟨w, rfl, -⟩ := heading?_eq_some_iff_written.1 hheading
  rw [w.getLast?_chars]
  exact w.isTail.getLast?_ne

/-! ### Levels -/

/-- The state of sections of a level. -/
def levelState : Nat → State
  | 0 => .body
  | 1 => .section
  | 2 => .subsection
  | _ => .subsubsection

/-- The stack when the innermost section is of this level. -/
def levelStack : Nat → StateStack State
  | 0 => .root .body
  | level + 1 => (levelStack level).push (levelState (level + 1))

@[simp] theorem top_levelStack (level : Nat) : (levelStack level).top = levelState level := by
  cases level <;> rfl

@[simp] theorem length_below_levelStack (level : Nat) : (levelStack level).below.length = level := by
  induction level with
  | zero => rfl
  | succ level ih => simp [levelStack, StateStack.push, ih]

theorem levelState_mem (level : Nat) : levelState level ∈ sectionStates := by
  unfold levelState
  split <;> simp [sectionStates]

theorem noLists_levelStack (level : Nat) : NoLists (levelStack level) := by
  have hsection : ∀ s ∈ sectionStates, s ∉ listStates := by decide
  induction level with
  | zero =>
    intro s hs
    rw [List.mem_singleton.1 hs]
    exact hsection _ (levelState_mem 0)
  | succ level ih =>
    intro s hs
    rcases List.mem_cons.1 hs with rfl | hs
    · exact hsection _ (levelState_mem (level + 1))
    · exact ih s hs

/-- Among sections a chunk that is no list item finds its entry behind those for items. -/
theorem transition?_plain (hx : itemClass? x = none) (hσ : σ.top ∈ sectionStates) :
    grammar.transition? σ x =
      ((plainEntries σ.top).find? fun e ↦ e.2.1 x).map fun e ↦ (e.1, e.2.2.resolve e.1 σ) := by
  have hrow : tableRow σ.top = itemEntries startList ++ plainEntries σ.top := by
    simp only [sectionStates, List.mem_cons, List.not_mem_nil, or_false] at hσ
    rcases hσ with h | h | h | h <;> rw [h] <;> rfl
  rw [transition?_eq, hrow, find?_itemEntries, hx]

/-- With chunk `x` the parse goes on from page `p` as the reading does, which puts it on this page
or on none. -/
def GoesOn (p : Page) (x : String) (xs : List String) : Option Page → Prop
  | some p' => p'.level ≤ 3 ∧
    grow (levelStack p.level) p.tree (x :: xs) = grow (levelStack p'.level) p'.tree xs
  | none => ∃ state tried, grow (levelStack p.level) p.tree (x :: xs) =
    .error (.noRecognizerMatch (fragmentText x) state tried)

section Put

variable (hx : itemClass? x = none) {d level : Nat}

include hx

/-- A heading closes a section of its own or a deeper level. -/
theorem grow_heading_close (hd : sectionDepth? x.toList = some d) (hpos : 1 ≤ d)
    (hle : d ≤ level + 1) (hlevel : level + 1 ≤ 3) :
    grow (levelStack (level + 1)) t (x :: xs) = grow (levelStack level) t (x :: xs) := by
  have ht := transition?_plain hx (σ := levelStack (level + 1)) (by simp [levelState_mem])
  have hstop : ∃ y, grammar.transition? (levelStack (level + 1)) x = some (y, .stop) := by
    rw [ht, top_levelStack]
    obtain rfl | rfl | rfl : level = 0 ∨ level = 1 ∨ level = 2 := by omega
    all_goals
      obtain rfl | rfl | rfl : d = 1 ∨ d = 2 ∨ d = 3 := by omega
      all_goals first | omega | simp [levelState, plainEntries, isHeadingOf, hd, Rule.resolve]
  obtain ⟨y, hy⟩ := hstop
  rw [levelStack, grow_of_stop hy]

/-- A heading that is one level deeper than the innermost section opens a section in it, unless it
is a header line. -/
theorem grow_heading_open (hd : sectionDepth? x.toList = some (level + 1)) (hlevel : level + 1 ≤ 3)
    (hheader : level = 0 → isHeader x = false) : grow (levelStack level) t (x :: xs) =
      grow (levelStack (level + 1))
        (Node.attach level (headingElement (sectionKind (level + 1)) x).toNode t) xs := by
  have ht := transition?_plain hx (σ := levelStack level) (by simp [levelState_mem])
  have hopen : ∃ y c, grammar.transition? (levelStack level) x =
      some (y, .construct c (some (levelState (level + 1)))) ∧
        shape c = .container (headingElement (sectionKind (level + 1))) ∧ c.frame = .own := by
    rw [ht, top_levelStack]
    obtain rfl | rfl | rfl : level = 0 ∨ level = 1 ∨ level = 2 := by omega
    · refine ⟨.section, .section, ?_, rfl, rfl⟩
      simp [levelState, plainEntries, isHeadingOf, hd, hheader rfl, Rule.resolve, Transition.childIn]
    · refine ⟨.subsection, .subsection, ?_, rfl, rfl⟩
      simp [levelState, plainEntries, isHeadingOf, hd, Rule.resolve, Transition.childIn]
    · refine ⟨.subsubsection, .subsubsection, ?_, rfl, rfl⟩
      simp [levelState, plainEntries, isHeadingOf, hd, Rule.resolve, Transition.childIn]
  obtain ⟨y, c, ht, hshape, hframe⟩ := hopen
  rw [grow_of_container ht hshape hframe, length_below_levelStack, levelStack]

/-- A chunk for which no heading fits is text, or ends the parse. -/
theorem transition?_text (hlevel : level ≤ 3) (hstate : beginsWith "State A:" x = false)
    (hd : ∀ d, 1 ≤ d → d ≤ 3 → d ≤ level + 1 → sectionDepth? x.toList ≠ some d) :
    grammar.transition? (levelStack level) x =
      if level = 0 ∧ isHeader x then some (.header, .child .header)
      else if isPreformatted x then some (.preformatted, .child .preformatted)
      else if isParagraph x then some (.paragraph, .child .paragraph)
      else none := by
  have hh : ∀ d, 1 ≤ d → d ≤ 3 → d ≤ level + 1 → isHeadingOf d x = false :=
    fun d h₁ h₂ h₃ ↦ decide_eq_false (hd d h₁ h₂ h₃)
  rw [transition?_plain hx (by simp [levelState_mem]), top_levelStack]
  obtain rfl | rfl | rfl | rfl : level = 0 ∨ level = 1 ∨ level = 2 ∨ level = 3 := by omega
  all_goals
    cases h₁ : isHeader x <;> cases h₂ : isPreformatted x <;> cases h₃ : isParagraph x <;>
      simp [levelState, plainEntries, hh, hstate, h₁, h₂, h₃, Rule.resolve]

/-- A chunk for which no heading fits is put on the page by the parse as by the reading. -/
theorem grow_putText (p : Page) (hlevel : p.level ≤ 3) (hstate : beginsWith "State A:" x = false)
    (hd : ∀ d, 1 ≤ d → d ≤ 3 → d ≤ p.level + 1 → sectionDepth? x.toList ≠ some d) :
    GoesOn p x xs (p.putText x) := by
  have ht := transition?_text hx hlevel hstate hd
  rw [Page.putText]
  by_cases hheader : p.level = 0 ∧ isHeader x
  · rw [if_pos hheader] at ht ⊢
    refine ⟨Nat.zero_le _, ?_⟩
    rw [grow_of_leaf ht rfl rfl, length_below_levelStack, hheader.1]
    rfl
  · rw [if_neg hheader] at ht ⊢
    by_cases hpre : isPreformatted x
    · rw [if_pos hpre] at ht ⊢
      refine ⟨hlevel, ?_⟩
      rw [grow_of_leaf ht rfl rfl, length_below_levelStack]
      rfl
    · rw [if_neg hpre] at ht ⊢
      by_cases hpar : isParagraph x
      · rw [if_pos hpar] at ht ⊢
        refine ⟨hlevel, ?_⟩
        rw [grow_of_leaf ht rfl rfl, length_below_levelStack]
        rfl
      · rw [if_neg hpar] at ht ⊢
        exact ⟨_, _, grow_of_none ht⟩

/-- A heading closes the sections of its own and of deeper levels. -/
theorem grow_heading_settle {d level : Nat} (hd : sectionDepth? x.toList = some d) (hpos : 1 ≤ d)
    (hle : d ≤ level + 1) (hlevel : level ≤ 3) :
    grow (levelStack level) t (x :: xs) = grow (levelStack (d - 1)) t (x :: xs) := by
  induction level with
  | zero =>
    obtain rfl : d = 1 := by omega
    rfl
  | succ level ih =>
    by_cases hclose : d ≤ level + 1
    · rw [grow_heading_close hx hd hpos hclose hlevel]
      exact ih hclose (by omega)
    · obtain rfl : d = level + 2 := by omega
      rfl

/-- A header line is put into the body. -/
theorem grow_header (hheader : isHeader x = true) : grow (levelStack 0) t (x :: xs) =
    grow (levelStack 0) (Node.attach 0 (flowElement (Element.ofKind "header") x) t) xs := by
  have ht : grammar.transition? (levelStack 0) x = some (.header, .child .header) := by
    rw [transition?_plain hx (by simp [levelState_mem]), top_levelStack]
    simp [levelState, plainEntries, hheader, Rule.resolve]
  rw [grow_of_leaf ht rfl rfl]
  rfl

/-- A heading that fits is put on the page by the parse as by the reading. -/
theorem grow_putHeading (p : Page) (hlevel : p.level ≤ 3) {d : Nat}
    (hd : sectionDepth? x.toList = some d) (hpos : 1 ≤ d) (hthree : d ≤ 3) (hle : d ≤ p.level + 1) :
    GoesOn p x xs (some (p.putHeading d x)) := by
  have hheader : isHeader x = decide (100 < x.toList.length) := by
    rw [isHeader, decide_eq_true (getLast?_ne_of_sectionDepth? hd), Bool.and_true]
  rw [GoesOn, grow_heading_settle hx hd hpos hle hlevel, Page.putHeading]
  by_cases hlong : d = 1 ∧ 100 < x.toList.length
  · rw [if_pos hlong]
    obtain ⟨rfl, hlength⟩ := hlong
    refine ⟨Nat.zero_le _, ?_⟩
    rw [grow_header hx (by rw [hheader, decide_eq_true hlength])]
    rfl
  · rw [if_neg hlong]
    refine ⟨hthree, ?_⟩
    have hd' : sectionDepth? x.toList = some (d - 1 + 1) := by
      rw [hd, Nat.sub_add_cancel hpos]
    have hshort : d - 1 = 0 → isHeader x = false := by
      intro h
      rw [hheader, decide_eq_false fun hlength ↦ hlong ⟨by omega, hlength⟩]
    rw [grow_heading_open hx hd' (by omega) hshort, Nat.sub_add_cancel hpos]
    rfl

/-- A chunk that is no list item is put on the page by the parse as by the reading. -/
theorem grow_put (p : Page) (hlevel : p.level ≤ 3) (hstate : beginsWith "State A:" x = false) :
    GoesOn p x xs (p.put x) := by
  rw [Page.put]
  rcases hd : sectionDepth? x.toList with _ | d
  · exact grow_putText hx p hlevel hstate fun d _ _ _ ↦ by simp [hd]
  · by_cases hfit : 1 ≤ d ∧ d ≤ 3 ∧ d ≤ p.level + 1
    · simp only [if_pos hfit]
      exact grow_putHeading hx p hlevel hd hfit.1 hfit.2.1 hfit.2.2
    · simp only [if_neg hfit]
      refine grow_putText hx p hlevel hstate fun d' h₁ h₂ h₃ heq ↦ hfit ?_
      rw [hd] at heq
      cases heq
      exact ⟨h₁, h₂, h₃⟩

end Put

/-- What can be put on a page is accepted in lists, which it ends. -/
theorem endsLists_of_put {p p' : Page} (h : p.put x = some p') : endsLists x = true := by
  by_contra hends
  rw [Bool.not_eq_true, endsLists] at hends
  simp only [stopEntries, List.any_cons, Bool.or_eq_false_iff] at hends
  obtain ⟨hheader, h₁, h₂, h₃, hpre, -, -, -, hpar, -⟩ := hends
  have htext : p.putText x = none := by
    simp [Page.putText, hheader, hpre, hpar]
  rw [Page.put, htext] at h
  rcases hd : sectionDepth? x.toList with _ | d
  · simp [hd] at h
  · simp only [isHeadingOf, hd, Option.some.injEq, decide_eq_false_iff_not] at h₁ h₂ h₃
    have hfit : ¬(1 ≤ d ∧ d ≤ 3 ∧ d ≤ p.level + 1) := by omega
    simp [hd, hfit] at h

/-! ### The theorem -/

/-- The outcome is the tree that was read, or without one that some chunk was not recognized. -/
def Settles (outcome : Except ParseError Node) : Option Node → Prop
  | some t => outcome = .ok t
  | none => ∃ fragment state tried, outcome = .error (.noRecognizerMatch fragment state tried)

/-- A chunk that is no list item closes the lists of a run that is over and is put on the page, or
it ends the parse. -/
theorem grow_put_nest (hx : itemClass? x = none) (p : Page) (hlevel : p.level ≤ 3)
    (hstate : beginsWith "State A:" x = false) (ks : List ListClass) :
    (∀ p', p.put x = some p' → p'.level ≤ 3 ∧
      grow (nest ks (levelStack p.level)) p.tree (x :: xs) = grow (levelStack p'.level) p'.tree xs) ∧
    (p.put x = none → ∃ state tried, grow (nest ks (levelStack p.level)) p.tree (x :: xs) =
      .error (.noRecognizerMatch (fragmentText x) state tried)) := by
  have hput : GoesOn p x xs (p.put x) := grow_put hx p hlevel hstate
  by_cases hends : ks = [] ∨ endsLists x = true
  · have hclose : grow (nest ks (levelStack p.level)) p.tree (x :: xs) =
        grow (levelStack p.level) p.tree (x :: xs) := by
      rcases hends with rfl | hends
      · rfl
      · exact grow_close_lists hx hends ks
    rw [hclose]
    refine ⟨fun p' hp ↦ ?_, fun hp ↦ ?_⟩ <;> rw [hp] at hput <;> exact hput
  · -- neither the lists nor the page take the chunk
    obtain ⟨hne, hmiss⟩ := not_or.1 hends
    refine ⟨fun p' hp ↦ absurd (endsLists_of_put hp) hmiss, fun _ ↦ ?_⟩
    obtain ⟨k, ks, rfl⟩ := List.exists_cons_of_ne_nil hne
    obtain ⟨state, tried, herror⟩ := grow_in_lists_of_none hx (Bool.not_eq_true _ ▸ hmiss) k ks
      (σ := levelStack p.level)
    exact ⟨state, tried, herror p.tree xs⟩

/-- A maximal run of list items is put on the page as one list, which is still open behind it. -/
theorem grow_list (p : Page) {style : ListStyle} (hstyle : listStyle? x.toList = some style) :
    grow (levelStack p.level) p.tree (x :: xs) =
      grow (nest (runLists style x (xs.takeWhile isItem)).1 (levelStack p.level))
        (p.addAt p.level (runLists style x (xs.takeWhile isItem)).2).tree (xs.dropWhile isItem) := by
  have hnew : grow (nest [] (levelStack p.level)) p.tree (x :: xs) = _ :=
    grow_item_new (noLists_levelStack p.level) hstyle List.not_mem_nil fun _ ↦ by
      rw [top_levelStack]
      exact levelState_mem _
  have hrun := grow_run (t := p.tree) (noLists_levelStack p.level)
    (fun y hy ↦ List.mem_takeWhile_imp (p := isItem) (l := xs) hy)
    ([style.listClass], listNode style x) (List.cons_ne_nil _ _) (xs.dropWhile isItem)
  rw [List.takeWhile_append_dropWhile] at hrun
  show grow (nest [] (levelStack p.level)) p.tree (x :: xs) = _
  rw [hnew, List.length_nil, Nat.mul_zero, Nat.add_zero, hrun, length_below_levelStack]
  rfl

/-- From every page the parse goes on as the reading does. Lists of a run that is over may still be
open, as they are when the next chunk comes. -/
theorem settles_grow (p : Page) (hlevel : p.level ≤ 3) (ks : List ListClass) (chunks : List String)
    (hks : ks ≠ [] → ∀ x ∈ chunks.head?, isItem x = false)
    (hstate : ∀ x ∈ chunks, beginsWith "State A:" x = false) :
    Settles (grow (nest ks (levelStack p.level)) p.tree chunks) (p.read chunks) := by
  -- on the chunks to come, since a run of list items is read at once
  induction hn : chunks.length using Nat.strongRecOn generalizing p ks chunks with
  | ind n ih =>
    subst hn
    rcases chunks with _ | ⟨x, xs⟩
    · rw [Page.read_nil]
      exact grow_nil _ _
    · have hxs : ∀ y ∈ xs, beginsWith "State A:" y = false := fun y hy ↦
        hstate y (List.mem_cons_of_mem _ hy)
      rcases hstyle : listStyle? x.toList with _ | style
      · have hclass : itemClass? x = none := by
          rw [itemClass?, hstyle]
          rfl
        obtain ⟨hsome, hnone⟩ := grow_put_nest hclass p hlevel (hstate x List.mem_cons_self) ks
        rw [Page.read_of_none p xs hstyle]
        rcases hp : p.put x with _ | p'
        · obtain ⟨state, tried, herror⟩ := hnone hp
          exact ⟨_, state, tried, herror⟩
        · obtain ⟨hlevel', hgrow⟩ := hsome p' hp
          rw [hgrow]
          exact ih xs.length (Nat.lt_succ_self _) p' hlevel' [] xs (fun h ↦ absurd rfl h) hxs rfl
      · obtain rfl : ks = [] := by
          by_contra hne
          have hitem := hks hne x rfl
          rw [isItem, hstyle] at hitem
          cases hitem
        rw [Page.read_of_some p xs hstyle, nest, grow_list p hstyle]
        refine ih _ ?_ (p.addAt p.level (runLists style x (xs.takeWhile isItem)).2) hlevel _ _ ?_ ?_ rfl
        · exact Nat.lt_succ_of_le (List.dropWhile_sublist isItem).length_le
        · intro _ y hy
          have hhead := List.head?_dropWhile_not isItem xs
          rwa [Option.mem_def.1 hy] at hhead
        · exact fun y hy ↦ hxs y ((List.dropWhile_sublist isItem).subset hy)

/-- **An outline is read from left to right.** If no chunk begins with `State A:`, then a parse
succeeds exactly if the reading does, and with the same tree. Otherwise some chunk is not
recognized. -/
theorem outline_eq_read (chunks : List String)
    (hstate : ∀ x ∈ chunks, beginsWith "State A:" x = false) :
    (∀ t, (CatalogEntry.outline.parse chunks).result = some (.ok t) ↔
      Page.blank.read chunks = some t) ∧
    (Page.blank.read chunks = none → ∃ fragment state tried,
      (CatalogEntry.outline.parse chunks).result =
        some (.error (.noRecognizerMatch fragment state tried))) := by
  have h := settles_grow Page.blank (Nat.zero_le 3) [] chunks (fun h ↦ absurd rfl h) hstate
  rw [result_outline]
  change Settles (grow (.root .body) (Element.ofKind "body").toNode chunks) _ at h
  rcases hread : Page.blank.read chunks with _ | t <;> rw [hread] at h
  · obtain ⟨fragment, state, tried, herror⟩ := h
    rw [herror]
    exact ⟨fun t ↦ ⟨nofun, nofun⟩, fun _ ↦ ⟨fragment, state, tried, rfl⟩⟩
  · rw [show grow _ _ chunks = .ok t from h]
    refine ⟨fun t' ↦ ⟨?_, ?_⟩, nofun⟩
    · rintro ⟨rfl⟩
      rfl
    · rintro ⟨rfl⟩
      rfl

/-- A section with a list inside a list, and a paragraph after both. -/
theorem outline_eq_read_nested :
    (∀ x ∈ ["1 Lists", "1. first", "a) inner", "2. second", "The end."],
      beginsWith "State A:" x = false) ∧
    (CatalogEntry.outline.parse ["1 Lists", "1. first", "a) inner", "2. second", "The end."]).result =
      some (.ok (.element "body" .empty
        [.element "section" ((NameTable.empty.insert "ordinal" "1").insert "title" "Lists")
          [.element "ordered-list" (NameTable.empty.insert "type" "decimal")
            [.element "list-item" (NameTable.empty.insert "ordinal" "1")
              [.text "first",
                .element "ordered-list" (NameTable.empty.insert "type" "lower-alpha")
                  [.element "list-item" (NameTable.empty.insert "ordinal" "a") [.text "inner"]]],
              .element "list-item" (NameTable.empty.insert "ordinal" "2") [.text "second"]],
            .element "paragraph" .empty [.text "The end."]]])) := by
  have hstate : ∀ x ∈ ["1 Lists", "1. first", "a) inner", "2. second", "The end."],
      beginsWith "State A:" x = false := by decide
  have hitem : listStyle? "1. first".toList = some .decimal := rfl
  have hdrop : ["a) inner", "2. second", "The end."].dropWhile isItem = ["The end."] := rfl
  refine ⟨hstate, ((outline_eq_read _ hstate).1 _).2 ?_⟩
  rw [Page.read_of_none _ _ rfl,
    show Page.blank.put "1 Lists" = some (Page.blank.putHeading 1 "1 Lists") from rfl,
    Option.bind_some, Page.read_of_some _ _ hitem, hdrop, Page.read_of_none _ _ rfl]
  simp only [Page.read_nil]
  rfl

end FragmentParser.Outline
