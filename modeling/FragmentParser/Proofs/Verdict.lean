import FragmentParser.Session

/-!
# What the head fragment comes to

`Session.judge` runs through recognition, the table and the redirection of the enclosing frame. This
module says **once and completely** what it can do: `Session.Judged` has one constructor for each of
the six cases, with the condition for the case, the verdict, and the session after it. Proofs about
parses split on `Session.judged` and never open `Session.judge`.

The condition is in terms of `Grammar.transition?`, which takes recognition and the table together.
A recognized symbol always has a rule (`Grammar.rule?_of_recognize`), so that of the errors a parse
can report a missing rule is **not** among the cases.
-/

namespace FragmentParser

variable {C F S Y : Type} [DecidableEq S] [DecidableEq Y]

/-- The symbol of a fragment under a state stack, with the transition that its rule yields. -/
def Grammar.transition? (g : Grammar C F S Y) (σ : StateStack S) (x : F) :
    Option (Y × Transition C S) :=
  (g.recognize σ.top x).bind fun y ↦ (g.rule? σ.top y).map fun rule ↦ (y, rule.resolve y σ)

/-- The row of a state: the symbols that are applicable there, in order of precedence, with their
recognizers and rules. -/
def Grammar.row (g : Grammar C F S Y) (s : S) : List (Y × (F → Bool) × Rule C S Y) :=
  g.recognizers.filterMap fun (y, accepts) ↦ (g.rule? s y).map fun rule ↦ (y, accepts, rule)

/-- The first entry of the row that accepts the fragment decides. -/
theorem Grammar.transition?_eq_row (g : Grammar C F S Y) (σ : StateStack S) (x : F) :
    g.transition? σ x =
      ((g.row σ.top).find? fun e ↦ e.2.1 x).map fun e ↦ (e.1, e.2.2.resolve e.1 σ) := by
  rw [transition?, recognize, row]
  induction g.recognizers with
  | nil => rfl
  | cons e rest ih =>
    obtain ⟨y, accepts⟩ := e
    rcases hr : g.rule? σ.top y with _ | rule
    · simpa [hr] using ih
    · cases hx : accepts x with
      | true => simp [hr, hx]
      | false => simpa [hr, hx] using ih

namespace Session

/-- The session after fragment `x` was recognized as `y` and the transition `t` was found. -/
def resolved (d : Session C F S Y) (g : Grammar C F S Y) (x : F) (y : Y) (t : Transition C S) :
    Session C F S Y :=
  (d.peek.2.record (.analyzed x (g.applicable d.state) (some y))).record (.transition d.state y t)

section Resolved

variable (d : Session C F S Y) (g : Grammar C F S Y) (x : F) (y : Y) (t : Transition C S)

@[simp] theorem rest_resolved : (d.resolved g x y t).rest = d.rest := d.rest_peek

@[simp] theorem stack_resolved : (d.resolved g x y t).stack = d.stack := rfl

@[simp] theorem taken_resolved : (d.resolved g x y t).taken = d.taken := rfl

@[simp] theorem log_resolved : (d.resolved g x y t).log =
    ⟨d.stack, .transition d.state y t⟩ ::
      ⟨d.stack, .analyzed x (g.applicable d.state) (some y)⟩ :: d.log := rfl

end Resolved

variable [Diagnostic F] [Diagnostic S] [Diagnostic Y]

/-- The verdict on the head fragment and the session after it. -/
inductive Judged (g : Grammar C F S Y) (d : Session C F S Y) :
    Verdict C S → Session C F S Y → Prop where
  /-- There is no head fragment. -/
  | exhausted : d.rest = [] → Judged g d (.finish .exhausted) (d.peek.2.record .exhausted)
  /-- No applicable recognizer accepts it. -/
  | unmatched {x : F} {xs : List F} : d.rest = x :: xs → g.transition? d.stack x = none →
      Judged g d
        (.finish (.failed (.noRecognizerMatch (fragmentText x) (text d.state)
          ((g.applicable d.state).map text))))
        (d.peek.2.record (.analyzed x (g.applicable d.state) none))
  /-- The frame stops. -/
  | stopped {x : F} {xs : List F} {y : Y} : d.rest = x :: xs →
      g.transition? d.stack x = some (y, .stop) →
      Judged g d (.finish .stopped) (d.resolved g x y .stop)
  /-- The frame stops, and the enclosing one is put into another state. -/
  | redirected {x : F} {xs : List F} {y : Y} {s old : S} {σ : StateStack S} : d.rest = x :: xs →
      g.transition? d.stack x = some (y, .redirect s) →
      d.stack.replaceCaller? s = some (old, σ) →
      Judged g d (.finish (.redirected s))
        ({ d.resolved g x y (.redirect s) with stack := σ }.record (.callerReplaced old s))
  /-- The frame should redirect the enclosing one, but it is the root. -/
  | orphaned {x : F} {xs : List F} {y : Y} {s : S} : d.rest = x :: xs →
      g.transition? d.stack x = some (y, .redirect s) →
      d.stack.replaceCaller? s = none →
      Judged g d (.finish (.failed (.noAncestor (text d.state)))) (d.resolved g x y (.redirect s))
  /-- A constructor is run. -/
  | construct {x : F} {xs : List F} {y : Y} {c : C} {s : Option S} : d.rest = x :: xs →
      g.transition? d.stack x = some (y, .construct c s) →
      Judged g d (.construct c s) (d.resolved g x y (.construct c s))

/-- The analysis of a fragment that is recognized. -/
theorem analyze_of_recognize {g : Grammar C F S Y} {d : Session C F S Y} {x : F} {xs : List F} {y : Y}
    (hd : d.rest = x :: xs) (hy : g.recognize d.state x = some y) : d.analyze g =
      (.ok (some y), d.peek.2.record (.analyzed x (g.applicable d.state) (some y))) := by
  have hp : d.peek = (some x, d.peek.2) := Prod.ext (by rw [peek_fst, hd]; rfl) rfl
  rw [analyze, hp]
  simp only [show d.peek.2.state = d.state from rfl, hy]

omit [Diagnostic F] in
/-- The resolution of its symbol. -/
theorem resolve_of_rule? {g : Grammar C F S Y} {d : Session C F S Y} (x : F) {y : Y}
    {rule : Rule C S Y} (hr : g.rule? d.state y = some rule) :
    (d.peek.2.record (.analyzed x (g.applicable d.state) (some y))).resolve g y =
      (.ok (rule.resolve y d.stack), d.resolved g x y (rule.resolve y d.stack)) := by
  rw [resolve, show g.rule? (d.peek.2.record
    (.analyzed x (g.applicable d.state) (some y))).state y = some rule from hr]
  rfl

/-- The cases are complete. -/
theorem judged (d : Session C F S Y) (g : Grammar C F S Y) :
    Judged g d (d.judge g).1 (d.judge g).2 := by
  rcases hd : d.rest with _ | ⟨x, xs⟩
  · have hp : d.peek = (none, d.peek.2) := Prod.ext (by rw [peek_fst, hd]; rfl) rfl
    have hj : d.judge g = (.finish .exhausted, d.peek.2.record .exhausted) := by
      rw [judge, analyze, hp]
    rw [hj]
    exact .exhausted hd
  · have hp : d.peek = (some x, d.peek.2) := Prod.ext (by rw [peek_fst, hd]; rfl) rfl
    rcases hy : g.recognize d.state x with _ | y
    · have ht : g.transition? d.stack x = none := by
        rw [Grammar.transition?, show g.recognize d.stack.top x = none from hy]
        rfl
      have hj : d.judge g = (.finish (.failed (.noRecognizerMatch (fragmentText x) (text d.state)
          ((g.applicable d.state).map text))),
          d.peek.2.record (.analyzed x (g.applicable d.state) none)) := by
        rw [judge, analyze, hp]
        simp only [show d.peek.2.state = d.state from rfl, hy]
      rw [hj]
      exact .unmatched hd ht
    · obtain ⟨rule, hr⟩ := Option.isSome_iff_exists.1 (Grammar.rule?_of_recognize hy)
      have ht : g.transition? d.stack x = some (y, rule.resolve y d.stack) := by
        rw [Grammar.transition?, show g.recognize d.stack.top x = some y from hy,
          Option.bind_some, show g.rule? d.stack.top y = some rule from hr]
        rfl
      have hanalyze := analyze_of_recognize hd hy
      have hresolve := resolve_of_rule? x hr
      -- every case below is one way for the rule to resolve
      rcases h : rule.resolve y d.stack with ⟨c, s⟩ | _ | s <;> rw [h] at hresolve ht
      · have hj : d.judge g = (.construct c s, d.resolved g x y (.construct c s)) := by
          rw [judge, hanalyze]
          simp only [hresolve]
        rw [hj]
        exact .construct hd ht
      · have hj : d.judge g = (.finish .stopped, d.resolved g x y .stop) := by
          rw [judge, hanalyze]
          simp only [hresolve]
        rw [hj]
        exact .stopped hd ht
      · rcases hc : d.stack.replaceCaller? s with _ | ⟨old, σ⟩
        · have hj : d.judge g = (.finish (.failed (.noAncestor (text d.state))),
              d.resolved g x y (.redirect s)) := by
            rw [judge, hanalyze]
            simp only [hresolve, redirect, stack_resolved, hc]
            rfl
          rw [hj]
          exact .orphaned hd ht hc
        · have hj : d.judge g = (.finish (.redirected s),
              { d.resolved g x y (.redirect s) with stack := σ }.record (.callerReplaced old s)) := by
            rw [judge, hanalyze]
            simp only [hresolve, redirect, stack_resolved, hc]
          rw [hj]
          exact .redirected hd ht hc

variable {g : Grammar C F S Y} {d d' : Session C F S Y}

/-- There is one verdict. -/
theorem Judged.judge_eq {v : Verdict C S} (h : d.Judged g v d') : d.judge g = (v, d') := by
  have hjudged := d.judged g
  generalize d.judge g = verdict at hjudged
  obtain ⟨w, e⟩ := verdict
  -- the conditions of the cases exclude each other
  cases h <;> cases hjudged <;> simp_all <;> rfl

/-- A verdict that runs a constructor finds a transition and changes nothing else. -/
theorem Judged.exists_resolved {c : C} {s : Option S} (h : d.Judged g (.construct c s) d') :
    ∃ x xs y, d.rest = x :: xs ∧ g.transition? d.stack x = some (y, .construct c s) ∧
      d' = d.resolved g x y (.construct c s) := by
  cases h with
  | construct hd ht => exact ⟨_, _, _, hd, ht, rfl⟩

/-- A verdict takes no fragment. -/
theorem Judged.rest_eq {v : Verdict C S} (h : d.Judged g v d') : d'.rest = d.rest := by
  cases h with
  | exhausted | unmatched => exact d.rest_peek
  | stopped | orphaned | construct => exact rest_resolved ..
  | redirected => exact d.rest_peek

/-- So the count stays. -/
theorem Judged.taken_eq {v : Verdict C S} (h : d.Judged g v d') : d'.taken = d.taken := by
  cases h <;> rfl

end Session

end FragmentParser
