import FragmentParser.Recipe
import FragmentParser.Trace

/-!
# Sessions

A session is the changing part of one parse: the reader, the state stack, how many fragments were
taken, and the steps recorded so far. The operations here are the single decisions of a parse; how
they follow each other is the matter of `FragmentParser.Parser`.
-/

namespace FragmentParser

/-- How the building of children comes to its end. -/
inductive Ending (S : Type) where
  /-- There are no more fragments. -/
  | exhausted
  /-- A rule stopped the frame. -/
  | stopped
  /-- A rule stopped the frame and put the enclosing one into the given state. -/
  | redirected (state : S)
  /-- The building itself failed. -/
  | failed (e : ParseError)
  /-- A constructor failed that was to return a child. -/
  | childFailed (e : ParseError)

/-- An ending as the caller of the building sees it. -/
def Ending.outcome {S : Type} : Ending S → Except ParseError Unit
  | .exhausted | .stopped | .redirected _ => .ok ()
  | .failed e | .childFailed e => .error e

/-- What the head fragment means for the building of children. -/
inductive Verdict (C S : Type) where
  /-- No more children are built. -/
  | finish (ending : Ending S)
  /-- A constructor is run, in the given state or in a copy of the current one. -/
  | construct (constructor : C) (state : Option S)

/-- The changing part of a parse. -/
structure Session (C F S Y : Type) where
  /-- The fragments to come. -/
  reader : Lookahead F
  /-- The states of the open frames. -/
  stack : StateStack S
  /-- How many fragments were taken. -/
  taken : Nat
  /-- The recorded steps, the latest first. -/
  log : List (Step C F S Y)

namespace Session

variable {C F S Y : Type}

/-- The session at the beginning of a parse. -/
def start (reader : Lookahead F) (s : S) : Session C F S Y := ⟨reader, .root s, 0, []⟩

/-- The recorded steps in the order of time. -/
def steps (d : Session C F S Y) : List (Step C F S Y) := d.log.reverse

/-- The fragments to come. -/
def rest (d : Session C F S Y) : List F := d.reader.toList

/-- The current state. -/
def state (d : Session C F S Y) : S := d.stack.top

/-- Record an event under the current stack. -/
def record (d : Session C F S Y) (event : Event C F S Y) : Session C F S Y :=
  { d with log := ⟨d.stack, event⟩ :: d.log }

/-- Look at the next fragment. -/
def peek (d : Session C F S Y) : Option F × Session C F S Y :=
  match d.reader.peek with
  | (fragment, reader) => (fragment, { d with reader := reader })

/-- Take the next fragment, and count it. -/
def take (d : Session C F S Y) : Option F × Session C F S Y :=
  match d.reader.next with
  | (none, reader) => (none, { d with reader := reader })
  | (some fragment, reader) => (some fragment, { d with reader := reader, taken := d.taken + 1 })

/-- Open a frame in state `s`, or in the current state. -/
def openFrame (d : Session C F S Y) (s : Option S) : Session C F S Y :=
  { d with stack := d.stack.push (s.getD d.state) }

/-- Close the innermost frame. -/
def closeFrame (d : Session C F S Y) : Session C F S Y := { d with stack := d.stack.pop }

/-- Before constructor `c` runs in state `s`: if its frame is shared, the current frame moves to
that state as well. -/
def share [Constructor C] (d : Session C F S Y) (c : C) (s : Option S) : Session C F S Y :=
  match Constructor.frame c, s with
  | .shared, some s => { d with stack := d.stack.replaceTop s }.record (.topReplaced d.state s)
  | _, _ => d

/-! ### What each operation does to the session -/

@[simp] theorem rest_start (reader : Lookahead F) (s : S) :
    (start reader s : Session C F S Y).rest = reader.toList := rfl

@[simp] theorem stack_start (reader : Lookahead F) (s : S) :
    (start reader s : Session C F S Y).stack = .root s := rfl

@[simp] theorem rest_record (d : Session C F S Y) (e : Event C F S Y) : (d.record e).rest = d.rest :=
  rfl

@[simp] theorem stack_record (d : Session C F S Y) (e : Event C F S Y) :
    (d.record e).stack = d.stack := rfl

@[simp] theorem taken_record (d : Session C F S Y) (e : Event C F S Y) :
    (d.record e).taken = d.taken := rfl

@[simp] theorem log_record (d : Session C F S Y) (e : Event C F S Y) :
    (d.record e).log = ⟨d.stack, e⟩ :: d.log := rfl

theorem peek_fst (d : Session C F S Y) : d.peek.1 = d.rest.head? := d.reader.peek_eq.1

@[simp] theorem rest_peek (d : Session C F S Y) : d.peek.2.rest = d.rest := d.reader.peek_eq.2

@[simp] theorem stack_peek (d : Session C F S Y) : d.peek.2.stack = d.stack := rfl

@[simp] theorem taken_peek (d : Session C F S Y) : d.peek.2.taken = d.taken := rfl

@[simp] theorem log_peek (d : Session C F S Y) : d.peek.2.log = d.log := rfl

theorem take_fst (d : Session C F S Y) : d.take.1 = d.rest.head? := by
  rw [rest, ← d.reader.next_eq.1, take]
  rcases d.reader.next with ⟨_ | _, _⟩ <;> rfl

@[simp] theorem rest_take (d : Session C F S Y) : d.take.2.rest = d.rest.tail := by
  rw [rest, rest, ← d.reader.next_eq.2, take]
  rcases d.reader.next with ⟨_ | _, _⟩ <;> rfl

@[simp] theorem stack_take (d : Session C F S Y) : d.take.2.stack = d.stack := by
  rw [take]
  rcases d.reader.next with ⟨_ | _, _⟩ <;> rfl

@[simp] theorem log_take (d : Session C F S Y) : d.take.2.log = d.log := by
  rw [take]
  rcases d.reader.next with ⟨_ | _, _⟩ <;> rfl

/-- A fragment that was taken is counted. -/
theorem taken_take_of_rest_cons {d : Session C F S Y} {x : F} {xs : List F}
    (h : d.rest = x :: xs) : d.take.2.taken = d.taken + 1 := by
  have hx : d.reader.next.1 = some x := by
    rw [d.reader.next_eq.1]
    exact congrArg List.head? h
  rw [take]
  rcases hn : d.reader.next with ⟨_ | y, reader⟩
  · rw [hn] at hx
    cases hx
  · rfl

@[simp] theorem rest_openFrame (d : Session C F S Y) (s : Option S) :
    (d.openFrame s).rest = d.rest := rfl

@[simp] theorem stack_openFrame (d : Session C F S Y) (s : Option S) :
    (d.openFrame s).stack = d.stack.push (s.getD d.state) := rfl

@[simp] theorem taken_openFrame (d : Session C F S Y) (s : Option S) :
    (d.openFrame s).taken = d.taken := rfl

@[simp] theorem log_openFrame (d : Session C F S Y) (s : Option S) :
    (d.openFrame s).log = d.log := rfl

@[simp] theorem rest_closeFrame (d : Session C F S Y) : d.closeFrame.rest = d.rest := rfl

@[simp] theorem stack_closeFrame (d : Session C F S Y) : d.closeFrame.stack = d.stack.pop := rfl

@[simp] theorem taken_closeFrame (d : Session C F S Y) : d.closeFrame.taken = d.taken := rfl

@[simp] theorem log_closeFrame (d : Session C F S Y) : d.closeFrame.log = d.log := rfl

@[simp] theorem rest_share [Constructor C] (d : Session C F S Y) (c : C) (s : Option S) :
    (d.share c s).rest = d.rest := by
  unfold share
  cases Constructor.frame c <;> cases s <;> rfl

@[simp] theorem stack_share [Constructor C] (d : Session C F S Y) (c : C) (s : Option S) :
    (d.share c s).stack = d.stack.share (Constructor.frame c) s := by
  unfold share
  cases Constructor.frame c <;> cases s <;> rfl

@[simp] theorem taken_share [Constructor C] (d : Session C F S Y) (c : C) (s : Option S) :
    (d.share c s).taken = d.taken := by
  unfold share
  cases Constructor.frame c <;> cases s <;> rfl

/-! ### Decisions -/

variable [Diagnostic S]

/-- Put the enclosing frame into state `s`; the root has none. -/
def redirect (d : Session C F S Y) (s : S) : Except ParseError Unit × Session C F S Y :=
  match d.stack.replaceCaller? s with
  | none => (.error (.noAncestor (text d.state)), d)
  | some (old, stack) => (.ok (), { d with stack := stack }.record (.callerReplaced old s))

variable [DecidableEq S] [DecidableEq Y] [Diagnostic F] [Diagnostic Y]

/-- Recognize the head fragment in the current state. There is no symbol at the end of the input,
and it is an error if no applicable recognizer accepts the fragment. -/
def analyze (d : Session C F S Y) (g : Grammar C F S Y) :
    Except ParseError (Option Y) × Session C F S Y :=
  match d.peek with
  | (none, d) => (.ok none, d.record .exhausted)
  | (some fragment, d) =>
    let candidates := g.applicable d.state
    let d' := d.record (.analyzed fragment candidates (g.recognize d.state fragment))
    match g.recognize d.state fragment with
    | some y => (.ok (some y), d')
    | none =>
      (.error (.noRecognizerMatch (fragmentText fragment) (text d.state) (candidates.map text)), d')

/-- The transition for a recognized symbol in the current state. -/
def resolve (d : Session C F S Y) (g : Grammar C F S Y) (y : Y) :
    Except ParseError (Transition C S) × Session C F S Y :=
  match g.rule? d.state y with
  | none => (.error (.noTransition (text d.state) (text y)), d)
  | some rule =>
    let t := rule.resolve y d.stack
    (.ok t, d.record (.transition d.state y t))

/-- Decide what the head fragment means in the current state. -/
def judge (d : Session C F S Y) (g : Grammar C F S Y) : Verdict C S × Session C F S Y :=
  match d.analyze g with
  | (.error e, d) => (.finish (.failed e), d)
  | (.ok none, d) => (.finish .exhausted, d)
  | (.ok (some y), d) =>
    match d.resolve g y with
    | (.error e, d) => (.finish (.failed e), d)
    | (.ok .stop, d) => (.finish .stopped, d)
    | (.ok (.redirect s), d) =>
      match d.redirect s with
      | (.error e, d) => (.finish (.failed e), d)
      | (.ok (), d) => (.finish (.redirected s), d)
    | (.ok (.construct c s), d) => (.construct c s, d)

end Session

end FragmentParser
