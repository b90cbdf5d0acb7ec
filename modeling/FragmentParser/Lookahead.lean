import FragmentParser.Diagnostic

/-!
# One item of lookahead

A parser looks at the item at the head of its input far more often than it takes it. `Lookahead`
keeps the two apart: `peek` fills a **one-item cache**, `next` empties it, or asks the source when
the cache is empty.

A source answers a request with an item or with *nothing*, and what a reader does at the first
*nothing* depends on the kind of the source (`Source`). One that might go on is **ended** by it: it
is not asked again, whatever it would have answered. A fused one, such as a list, has only nothing
behind its items, so there is nothing to guard against, and it is asked whenever the reader looks.
`Lookahead.asked` counts the requests, so that how far a reader has looked can be stated, and
`Lookahead.toList` is the view of what is still to come.
-/

namespace FragmentParser

/-- What a reader gets its items from. -/
inductive Source (F : Type) where
  /-- Answers, of which one may be nothing and a later one an item; behind the last there is only
  nothing. -/
  | resuming (answers : List (Option F))
  /-- Items, and behind the last of them only nothing. -/
  | fused (items : List F)

namespace Source

variable {F : Type}

/-- Ask the source once. -/
def ask : Source F → Option F × Source F
  | .resuming [] => (none, .resuming [])
  | .resuming (answer :: answers) => (answer, .resuming answers)
  | .fused [] => (none, .fused [])
  | .fused (x :: items) => (some x, .fused items)

/-- Whether an item may come behind an answer of nothing. -/
def mayResume : Source F → Bool
  | .resuming _ => true
  | .fused _ => false

/-- The items up to the first answer of nothing. -/
def untilNothing : List (Option F) → List F
  | some x :: answers => x :: untilNothing answers
  | none :: _ => []
  | [] => []

/-- The items that a reader of the source gets to see. -/
def items : Source F → List F
  | .resuming answers => untilNothing answers
  | .fused items => items

theorem ask_fst (s : Source F) : s.ask.1 = s.items.head? := by
  rcases s with (_ | ⟨_ | x, answers⟩) | (_ | ⟨x, items⟩) <;> rfl

/-- Behind the first item come the others. Behind nothing there may be any if the source resumes. -/
theorem items_ask (s : Source F) :
    (if s.ask.1.isNone && s.ask.2.mayResume then [] else s.ask.2.items) = s.items.tail := by
  rcases s with (_ | ⟨_ | x, answers⟩) | (_ | ⟨x, items⟩) <;> rfl

end Source

/-- A reader with a cache of one item over a source. -/
structure Lookahead (F : Type) where
  /-- What the source has not given yet. -/
  source : Source F
  /-- Whether the source has answered with nothing and might go on, and so is not asked again. -/
  ended : Bool
  /-- The item that was looked at and not taken yet. -/
  cached : Option F
  /-- How often the source has been asked. -/
  asked : Nat

namespace Lookahead

variable {F : Type}

/-- A reader over a source that has not been asked yet. -/
def ofSource (source : Source F) : Lookahead F := ⟨source, false, none, 0⟩

/-- A reader over a source that gives these answers. -/
def ofAnswers (answers : List (Option F)) : Lookahead F := ofSource (.resuming answers)

/-- A reader over the items of a list. -/
def ofList (items : List F) : Lookahead F := ofSource (.fused items)

/-- Ask the source, unless it has ended. -/
def pull (r : Lookahead F) : Option F × Lookahead F :=
  if r.ended then (none, r)
  else
    match r.source.ask with
    | (answer, source) =>
      (answer, { r with
        source := source
        ended := answer.isNone && source.mayResume
        asked := r.asked + 1 })

/-- The next item, which stays. -/
def peek (r : Lookahead F) : Option F × Lookahead F :=
  match r.cached with
  | some x => (some x, r)
  | none =>
    match r.pull with
    | (answer, r') => (answer, { r' with cached := answer })

/-- Take the next item. -/
def next (r : Lookahead F) : Option F × Lookahead F :=
  match r.cached with
  | some x => (some x, { r with cached := none })
  | none => r.pull

/-- Whether nothing is left; asking is a look at the next item. -/
def isExhausted (r : Lookahead F) : Bool × Lookahead F :=
  match r.peek with
  | (answer, r') => (answer.isNone, r')

/-- The items still to come. -/
def toList (r : Lookahead F) : List F := r.cached.toList ++ if r.ended then [] else r.source.items

/-- Take `n` items at most, stopping at the first answer of nothing. -/
def takeUpTo : Nat → Lookahead F → List F × Lookahead F
  | 0, r => ([], r)
  | n + 1, r =>
    match r.next with
    | (none, r') => ([], r')
    | (some x, r') =>
      match takeUpTo n r' with
      | (rest, r'') => (x :: rest, r'')

/-- Take all that is left, up to and including the answer of nothing: one request more than there
are items. -/
def rest (r : Lookahead F) : List F × Lookahead F := r.takeUpTo (r.toList.length + 1)

/-- The text of the reader: its cache, the source being hidden. -/
def debugText [Diagnostic F] (r : Lookahead F) : String :=
  let cached := match r.cached with
    | none => "None"
    | some x => "Some(" ++ text x ++ ")"
  "Lookahead \x7b cached: " ++ cached ++ ", .. \x7d"

/-! ### What each operation does to the view -/

@[simp] theorem toList_ofSource (source : Source F) : (ofSource source).toList = source.items := rfl

@[simp] theorem toList_ofList (xs : List F) : (ofList xs).toList = xs := rfl

/-- Asking the source shows the head of what is to come, and removes it. -/
theorem pull_eq (r : Lookahead F) (h : r.cached = none) :
    r.pull.1 = r.toList.head? ∧ r.pull.2.toList = r.toList.tail ∧ r.pull.2.cached = none := by
  obtain ⟨source, ended, cached, asked⟩ := r
  subst h
  cases ended with
  | true => exact ⟨rfl, rfl, rfl⟩
  | false => exact ⟨source.ask_fst, source.items_ask, rfl⟩

/-- A look shows the head of what is to come, and removes nothing. -/
theorem peek_eq (r : Lookahead F) : r.peek.1 = r.toList.head? ∧ r.peek.2.toList = r.toList := by
  rw [peek]
  cases hc : r.cached with
  | some x => exact ⟨by rw [toList, hc]; rfl, rfl⟩
  | none =>
    obtain ⟨hfst, hsnd, hcached⟩ := r.pull_eq hc
    refine ⟨hfst, ?_⟩
    -- the head goes into the cache, and the tail was left in the source
    have hrest : (if r.pull.2.ended then [] else r.pull.2.source.items) = r.toList.tail := by
      rw [← hsnd, toList, hcached]
      rfl
    show r.pull.1.toList ++ (if r.pull.2.ended then [] else r.pull.2.source.items) = r.toList
    rw [hrest, hfst]
    cases r.toList <;> rfl

/-- Taking shows the head of what is to come, and removes it. -/
theorem next_eq (r : Lookahead F) :
    r.next.1 = r.toList.head? ∧ r.next.2.toList = r.toList.tail := by
  rw [next]
  cases hc : r.cached with
  | some x => exact ⟨by rw [toList, hc]; rfl, by rw [toList, toList, hc]; rfl⟩
  | none => exact ⟨(r.pull_eq hc).1, (r.pull_eq hc).2.1⟩

end Lookahead

end FragmentParser
