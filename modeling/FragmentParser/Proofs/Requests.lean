import FragmentParser.Lookahead
import Mathlib.Data.List.Basic

/-!
# A reader is a list that asks for what is needed

A reader with a cache over a source is used like a plain list of the items before the first answer
of nothing. `Use` has the four ways to use either, and in every series of uses the reader tells what
the list tells (`Tracks.performAll_eq`).

A list makes no requests. Those of a reader are counted by **what it has told** (`Tracks`): it is
level with the items that it has handed out, or ahead of them by the one in the cache, or its source
has answered with nothing, which it has told then. Each use leads from one of the three to another
(`Tracks.performed`), so a source is not read more than one item ahead. How often it is asked behind
its last item depends on its kind (`Source.endings`): a source that might go on is asked once and
then never again, and a fused one at every look at the end.
-/

namespace FragmentParser

namespace Source

variable {F : Type}

/-- The source after `n` requests. -/
def drop (n : Nat) : Source F → Source F
  | .resuming answers => .resuming (answers.drop n)
  | .fused items => .fused (items.drop n)

/-- How many requests are answered with nothing when the end is looked at so often. -/
def endings : Source F → Nat → Nat
  | .resuming _, looks => min looks 1
  | .fused _, looks => looks

theorem drop_zero (s : Source F) : s.drop 0 = s := by cases s <;> rfl

theorem endings_one (s : Source F) : s.endings 1 = 1 := by cases s <;> rfl

theorem mayResume_drop (s : Source F) (n : Nat) : (s.drop n).mayResume = s.mayResume := by
  cases s <;> rfl

/-- A request tells the next item, and the source goes on behind it. -/
theorem ask_drop (s : Source F) (n : Nat) :
    (s.drop n).ask = ((s.drop n).items.head?, s.drop (n + 1)) := by
  refine Prod.ext (ask_fst _) ?_
  cases s with
  | resuming answers =>
    rw [drop, drop, ← List.tail_drop]
    cases answers.drop n <;> rfl
  | fused items =>
    rw [drop, drop, ← List.tail_drop]
    cases items.drop n <;> rfl

end Source

namespace Lookahead

variable {F : Type}

/-! ### Uses -/

/-- A way to use a reader. -/
inductive Use where
  /-- Look at the next item. -/
  | peek
  /-- Take it. -/
  | next
  /-- Ask whether nothing is left. -/
  | isExhausted
  /-- Take all that is left. -/
  | rest

/-- What a use tells. -/
inductive Told (F : Type) where
  /-- The next item, which stays. -/
  | shown (item : Option F)
  /-- The item that was taken. -/
  | taken (item : Option F)
  /-- Whether nothing is left. -/
  | exhausted (answer : Bool)
  /-- All items that were left. -/
  | collected (items : List F)

/-- The items that were handed out. -/
def Told.handedOut : Told F → List F
  | .shown _ | .exhausted _ => []
  | .taken item => item.toList
  | .collected items => items

/-- Whether the end of the source was seen. -/
def Told.seesEnd : Told F → Bool
  | .shown item | .taken item => item.isNone
  | .exhausted answer => answer
  | .collected _ => true

/-- Use a reader. -/
def perform (r : Lookahead F) : Use → Told F × Lookahead F
  | .peek => (.shown r.peek.1, r.peek.2)
  | .next => (.taken r.next.1, r.next.2)
  | .isExhausted => (.exhausted r.isExhausted.1, r.isExhausted.2)
  | .rest => (.collected r.rest.1, r.rest.2)

/-- Use a plain list in the same way. -/
def performOnList (xs : List F) : Use → Told F × List F
  | .peek => (.shown xs.head?, xs)
  | .next => (.taken xs.head?, xs.tail)
  | .isExhausted => (.exhausted xs.isEmpty, xs)
  | .rest => (.collected xs, [])

/-- Use something again and again. -/
def performAll {R : Type} (perform : R → Use → Told F × R) : List Use → R → List (Told F) × R
  | [], r => ([], r)
  | u :: us, r =>
    ((perform r u).1 :: (performAll perform us (perform r u).2).1,
      (performAll perform us (perform r u).2).2)

/-! ### Requests -/

variable {source : Source F} {handed looks : Nat} {r : Lookahead F}

/-- What a reader over the source is like when so many items have been handed out and the end has
been looked at so often. -/
inductive Tracks (source : Source F) : Nat → Nat → Lookahead F → Prop where
  /-- Nothing but the items that were handed out has been asked for. -/
  | level (n : Nat) : Tracks source n 0 ⟨source.drop n, false, none, n⟩
  /-- One more item has been asked for. -/
  | ahead (n : Nat) (x : F) : Tracks source n 0 ⟨source.drop (n + 1), false, some x, n + 1⟩
  /-- The source has answered with nothing. -/
  | ended (n looks : Nat) (h : (source.drop n).items = []) :
    Tracks source n (looks + 1) ⟨source.drop (n + source.endings (looks + 1)), source.mayResume,
      none, n + source.endings (looks + 1)⟩

/-- A source that has not ended is asked once more, and tells of an item or of the end. -/
theorem pull_level (n : Nat) (cached : Option F) :
    pull ⟨source.drop n, false, cached, n⟩ = ((source.drop n).items.head?,
      ⟨source.drop (n + 1), (source.drop n).items.head?.isNone && source.mayResume, cached,
        n + 1⟩) := by
  rw [pull, if_neg Bool.false_ne_true]
  simp only [Source.ask_drop, Source.mayResume_drop]

/-- Behind the end there is nothing, for which a source that might go on is not asked. -/
theorem pull_ended {n : Nat} (h : (source.drop n).items = []) (looks : Nat) (cached : Option F) :
    pull ⟨source.drop (n + source.endings (looks + 1)), source.mayResume, cached,
      n + source.endings (looks + 1)⟩ =
    (none, ⟨source.drop (n + source.endings (looks + 2)), source.mayResume, cached,
      n + source.endings (looks + 2)⟩) := by
  cases source with
  | resuming answers =>
    have hone (k : Nat) : (Source.resuming answers).endings (k + 1) = 1 :=
      Nat.min_eq_right (Nat.le_add_left 1 k)
    rw [hone, hone]
    rfl
  | fused items =>
    have hnil : ((Source.fused items).drop (n + (looks + 1))).items = [] :=
      List.drop_eq_nil_of_le (Nat.le_add_right_of_le (List.drop_eq_nil_iff.1 h))
    refine (pull_level (n + (looks + 1)) cached).trans ?_
    rw [hnil]
    rfl

/-- The first time that the source answers with nothing. -/
theorem Tracks.first {n : Nat} (h : (source.drop n).items = []) :
    Tracks source n 1 ⟨source.drop (n + 1), source.mayResume, none, n + 1⟩ := by
  have hended := Tracks.ended n 0 h
  rwa [source.endings_one] at hended

theorem Tracks.peek (h : Tracks source handed looks r) :
    Tracks source handed (looks + r.peek.1.isNone.toNat) r.peek.2 := by
  cases h with
  | level =>
    rw [Lookahead.peek, pull_level]
    rcases hitems : (source.drop handed).items with _ | ⟨x, items⟩
    · exact .first hitems
    · exact .ahead handed x
  | ahead x => exact .ahead handed x
  | ended looks hend =>
    rw [Lookahead.peek, pull_ended hend]
    exact .ended handed (looks + 1) hend

theorem Tracks.next (h : Tracks source handed looks r) :
    Tracks source (handed + r.next.1.toList.length) (looks + r.next.1.isNone.toNat) r.next.2 := by
  cases h with
  | level =>
    rw [Lookahead.next, pull_level]
    rcases hitems : (source.drop handed).items with _ | ⟨x, items⟩
    · exact .first hitems
    · exact .level (handed + 1)
  | ahead => exact .level (handed + 1)
  | ended looks hend =>
    rw [Lookahead.next, pull_ended hend]
    exact .ended handed (looks + 1) hend

/-- All that is left are the items of the list, and then the end is seen. -/
theorem Tracks.takeUpTo (h : Tracks source handed looks r) {n : Nat} (hn : r.toList.length < n) :
    (r.takeUpTo n).1 = r.toList ∧ (r.takeUpTo n).2.toList = [] ∧
      Tracks source (handed + r.toList.length) (looks + 1) (r.takeUpTo n).2 := by
  induction n generalizing r handed looks with
  | zero => exact absurd hn (Nat.not_lt_zero _)
  | succ n ih =>
    have hnext := h.next
    obtain ⟨hhead, htail⟩ := r.next_eq
    rw [Lookahead.takeUpTo]
    generalize r.next = answer at hnext hhead htail ⊢
    obtain ⟨_ | x, r'⟩ := answer
    · have hnil : r.toList = [] := List.head?_eq_none_iff.1 hhead.symm
      rw [hnil] at htail ⊢
      exact ⟨rfl, htail, hnext⟩
    · obtain ⟨rest, hrest⟩ := List.head?_eq_some_iff.1 hhead.symm
      obtain rfl : r'.toList = rest := htail.trans (congrArg List.tail hrest)
      rw [hrest] at hn
      obtain ⟨hfst, hsnd, htracks⟩ := ih hnext (Nat.lt_of_succ_lt_succ hn)
      rw [hrest, List.length_cons, Nat.add_comm _ 1, ← Nat.add_assoc]
      exact ⟨congrArg (x :: ·) hfst, hsnd, htracks⟩

/-- A use hands items out and may see the end. -/
theorem Tracks.performed (h : Tracks source handed looks r) (u : Use) :
    Tracks source (handed + (r.perform u).1.handedOut.length)
      (looks + (r.perform u).1.seesEnd.toNat) (r.perform u).2 := by
  cases u with
  | peek => exact h.peek
  | next => exact h.next
  | isExhausted => exact h.peek
  | rest =>
    obtain ⟨hfst, -, htracks⟩ := h.takeUpTo (Nat.lt_succ_self _)
    show Tracks source (handed + r.rest.1.length) (looks + 1) r.rest.2
    rw [Lookahead.rest, hfst]
    exact htracks

/-- It tells what it tells of a list, and leaves the same. -/
theorem Tracks.perform_eq (h : Tracks source handed looks r) (u : Use) :
    (r.perform u).1 = (performOnList r.toList u).1 ∧
      (r.perform u).2.toList = (performOnList r.toList u).2 := by
  cases u with
  | peek => exact ⟨congrArg Told.shown r.peek_eq.1, r.peek_eq.2⟩
  | next => exact ⟨congrArg Told.taken r.next_eq.1, r.next_eq.2⟩
  | isExhausted =>
    have hnone : r.peek.1.isNone = r.toList.isEmpty := by
      rw [r.peek_eq.1]
      cases r.toList <;> rfl
    exact ⟨congrArg Told.exhausted hnone, r.peek_eq.2⟩
  | rest =>
    obtain ⟨hfst, hsnd, -⟩ := h.takeUpTo (Nat.lt_succ_self _)
    exact ⟨congrArg Told.collected hfst, hsnd⟩

/-! ### Series of uses -/

theorem Tracks.performAll_eq (h : Tracks source handed looks r) (us : List Use) :
    (performAll perform us r).1 = (performAll performOnList us r.toList).1 ∧
      (performAll perform us r).2.toList = (performAll performOnList us r.toList).2 := by
  induction us generalizing r handed looks with
  | nil => exact ⟨rfl, rfl⟩
  | cons u us ih =>
    obtain ⟨htold, hleft⟩ := h.perform_eq u
    obtain ⟨hall, hlast⟩ := ih (h.performed u)
    rw [hleft] at hall hlast
    exact ⟨congrArg₂ List.cons htold hall, hlast⟩

theorem Tracks.performedAll (h : Tracks source handed looks r) (us : List Use) :
    Tracks source (handed + ((performAll perform us r).1.flatMap Told.handedOut).length)
      (looks + (performAll perform us r).1.countP Told.seesEnd) (performAll perform us r).2 := by
  have hcount (told : Told F) (later : List (Told F)) :
      (told :: later).countP Told.seesEnd = told.seesEnd.toNat + later.countP Told.seesEnd := by
    rw [List.countP_cons, Nat.add_comm]
    cases told.seesEnd <;> rfl
  induction us generalizing r handed looks with
  | nil => exact h
  | cons u us ih =>
    have hlater := ih (h.performed u)
    rw [Nat.add_assoc, ← List.length_append, Nat.add_assoc, ← hcount] at hlater
    exact hlater

/-- A list hands out what it does not keep. -/
theorem handedOut_performAll_performOnList (us : List Use) (xs : List F) :
    (performAll performOnList us xs).1.flatMap Told.handedOut ++
      (performAll performOnList us xs).2 = xs := by
  induction us generalizing xs with
  | nil => rfl
  | cons u us ih =>
    have hone : (performOnList xs u).1.handedOut ++ (performOnList xs u).2 = xs := by
      cases u with
      | peek | isExhausted => rfl
      | next => cases xs <;> rfl
      | rest => exact List.append_nil xs
    rw [Lookahead.performAll, List.flatMap_cons, List.append_assoc, ih, hone]

/-- A reader tells what the list tells, and its requests are counted by what it has told. -/
theorem exists_performAll (source : Source F) (us : List Use) :
    ∃ told r, performAll perform us (ofSource source) = (told, r) ∧
      told = (performAll performOnList us source.items).1 ∧
      (told.flatMap Told.handedOut).length ≤ source.items.length ∧
      Tracks source (told.flatMap Told.handedOut).length (told.countP Told.seesEnd) r := by
  have hstart : Tracks source 0 0 (ofSource source) := by
    have hlevel : Tracks source 0 0 ⟨source.drop 0, false, none, 0⟩ := .level 0
    rwa [source.drop_zero] at hlevel
  have htold := (hstart.performAll_eq us).1
  have htracks := hstart.performedAll us
  have hparts := handedOut_performAll_performOnList us source.items
  rw [toList_ofSource] at htold
  rw [Nat.zero_add, Nat.zero_add] at htracks
  refine ⟨_, _, rfl, htold, ?_, htracks⟩
  rw [htold, ← congrArg List.length hparts, List.length_append]
  exact Nat.le_add_right _ _

/-- The source has been asked for the items that were handed out, for the one in the cache, and at
the end. -/
theorem Tracks.asked_eq (h : Tracks source handed looks r) :
    r.asked = handed + r.cached.toList.length + source.endings looks := by
  cases h with
  | level | ahead => cases source <;> rfl
  | ended => rfl

theorem Tracks.source_eq (h : Tracks source handed looks r) : r.source = source.drop r.asked := by
  cases h <;> rfl

/-- A source that might go on is not asked for more than one item ahead. -/
theorem Tracks.asked_le {answers : List (Option F)} (h : Tracks (.resuming answers) handed looks r) :
    r.asked ≤ handed + 1 := by
  cases h with
  | level => exact Nat.le_succ _
  | ahead => exact Nat.le_refl _
  | ended => exact Nat.add_le_add_left (Nat.min_le_right _ _) _

/-- A fused source has given the items that were handed out and the one in the cache. -/
theorem Tracks.source_eq_fused {xs : List F} (h : Tracks (.fused xs) handed looks r) :
    r.source = .fused (xs.drop (handed + r.cached.toList.length)) := by
  cases h with
  | level | ahead => rfl
  | ended looks hend =>
    have hlength : xs.length ≤ handed := List.drop_eq_nil_iff.1 hend
    show Source.fused (xs.drop (handed + (looks + 1))) = .fused (xs.drop handed)
    rw [List.drop_eq_nil_of_le hlength, List.drop_eq_nil_of_le (Nat.le_add_right_of_le hlength)]

/-- A source that might go on is asked at the end just once. -/
theorem endings_countP (answers : List (Option F)) (told : List (Told F)) :
    (Source.resuming answers).endings (told.countP Told.seesEnd) =
      (told.any Told.seesEnd).toNat := by
  rw [Source.endings]
  cases hany : told.any Told.seesEnd with
  | false =>
    have hnone : told.countP Told.seesEnd = 0 := by simpa [List.countP_eq_zero] using hany
    rw [hnone]
    rfl
  | true =>
    have hsome : 1 ≤ told.countP Told.seesEnd := by
      simpa [List.one_le_countP_iff] using hany
    exact Nat.min_eq_right hsome

/-- A source that would go on, of which the second item is never seen. -/
example : (performAll perform [.peek, .next, .isExhausted, .peek, .rest, .next]
    (ofAnswers [some 1, none, some 2])).2.asked = 2 := by decide

/-- A list of one item, at the end of which the reader has looked four times. -/
example : (performAll perform [.peek, .next, .isExhausted, .peek, .rest, .next]
    (ofList [1])).2.asked = 5 := by decide

end Lookahead

end FragmentParser
