import FragmentParser.Proofs.Outline.Design
import FragmentParser.Proofs.Trace.Decisions

/-!
# Traces are honest

Besides being made of whole decisions, a trace tells of errors: when no recognizer matches a
fragment and constructors let errors through, **nothing comes behind** the step that says so.

A constructor that is handed an error may end with another error and still let it through, so what
is asked of recipes is that they end there and then (`Recipe.Propagates`). Then a session in which a
mismatch was recorded is on its way out with an error, and as long as there is none the session is
`Session.Clear`; both are told by `Session.ClearUpTo`, and of each moment by
`Parser.Moment.IsClear`. A recipe keeps this as it is handed outcomes
(`Moment.IsClear.handChildren`, `Moment.IsClear.handChild`), whether it is followed to its end or
only so far. With the decisions, which need no such condition, this is `Parser.trace_honest`. It
holds at every moment of a parse, so parses without an end are included.
-/

namespace FragmentParser

variable {C F S Y N : Type}

/-- No recognizer matched the fragment. -/
def Step.IsMismatch (step : Step C F S Y) : Prop :=
  ∃ x candidates, step.event = .analyzed x candidates none

namespace Recipe

variable {α : Type}

/-- An error that is handed to the recipe ends it, with that error or another one. -/
def Propagates : Recipe C F S Y N α → Prop
  | .done _ => True
  | .peek k | .take k => ∀ x, (k x).Propagates
  | .inspect k => ∀ σ v, (k σ v).Propagates
  | .children _ k =>
    (∀ nodes e, ∃ e', k nodes (.error e) = .done (.error e')) ∧
      ∀ nodes, (k nodes (.ok ())).Propagates
  | .child _ _ k =>
    (∀ e, ∃ e', k (.error e) = .done (.error e')) ∧ ∀ node, (k (.ok node)).Propagates

theorem PassesOn.propagates {r : Recipe C F S Y N α} (h : r.PassesOn) : r.Propagates := by
  induction r with
  | done _ => trivial
  | peek k ih | take k ih => exact fun x ↦ ih x (h x)
  | inspect k ih => exact fun σ v ↦ ih σ v (h.2 σ v)
  | children parent k ih =>
    exact ⟨fun nodes e ↦ ⟨e, h.1 nodes e⟩, fun nodes ↦ ih nodes _ (h.2 nodes)⟩
  | child c s k ih => exact ⟨fun e ↦ ⟨e, h.1 e⟩, fun node ↦ ih _ (h.2 node)⟩

end Recipe

namespace Session

/-- No mismatch has been recorded. -/
def Clear (d : Session C F S Y) : Prop := ∀ step ∈ d.log, ¬step.IsMismatch

/-- A mismatch was recorded last if at all, and then the outcome is an error. -/
structure ClearUpTo {α : Type} (d : Session C F S Y) (outcome : Except ParseError α) : Prop where
  /-- No earlier step is a mismatch. -/
  tail : ∀ step ∈ d.log.tail, ¬step.IsMismatch
  /-- Without an error there is none. -/
  clear : ∀ a, outcome = .ok a → d.Clear

variable {d d' : Session C F S Y} {α : Type}

/-- Another error may take the place of an outcome. -/
theorem ClearUpTo.failed {β : Type} {outcome : Except ParseError α} (h : d.ClearUpTo outcome)
    (e : ParseError) : d.ClearUpTo (.error e : Except ParseError β) :=
  ⟨h.tail, nofun⟩

theorem Clear.tail (h : d.Clear) : ∀ step ∈ d.log.tail, ¬step.IsMismatch :=
  fun step hstep ↦ h step (List.mem_of_mem_tail hstep)

theorem Clear.upTo (h : d.Clear) (outcome : Except ParseError α) : d.ClearUpTo outcome :=
  ⟨h.tail, fun _ _ ↦ h⟩

theorem Clear.of_log (h : d.Clear) (new : List (Step C F S Y)) (hlog : d'.log = new ++ d.log)
    (hnew : ∀ step ∈ new, ¬step.IsMismatch) : d'.Clear := by
  intro step hstep
  rw [hlog] at hstep
  exact (List.mem_append.1 hstep).elim (hnew step) (h step)

theorem Clear.take (h : d.Clear) : d.take.2.Clear :=
  h.of_log [] d.log_take (by simp)

theorem Clear.record_children (h : d.Clear) (parent : String) :
    (d.record (.children parent)).Clear :=
  h.of_log [_] rfl (by simp [Step.IsMismatch])

theorem Clear.share [Constructor C] (h : d.Clear) (c : C) (s : Option S) : (d.share c s).Clear := by
  rcases d.log_share c s with hlog | ⟨new, hlog⟩
  · exact h.of_log [] hlog (by simp)
  · exact h.of_log [_] hlog (by simp [Step.IsMismatch])

variable [DecidableEq S] [DecidableEq Y] {g : Grammar C F S Y}

theorem Clear.resolved (h : d.Clear) (x : F) (y : Y) (t : Transition C S) :
    (d.resolved g x y t).Clear :=
  h.of_log [_, _] rfl (by simp [Step.IsMismatch])

variable [Diagnostic F] [Diagnostic S] [Diagnostic Y]

/-- A verdict records a mismatch only if it is the error. -/
theorem Clear.judged_finish (h : d.Clear) {ending : Ending S}
    (hj : d.Judged g (.finish ending) d') : d'.ClearUpTo ending.outcome := by
  cases hj with
  | exhausted => exact (h.of_log [_] rfl (by simp [Step.IsMismatch])).upTo _
  | unmatched => exact ⟨h, fun _ hok ↦ by cases hok⟩
  | stopped | orphaned => exact (h.resolved _ _ _).upTo _
  | redirected =>
    exact ((h.resolved _ _ _).of_log [_] rfl (by simp [Step.IsMismatch])).upTo _

theorem Clear.judged_construct (h : d.Clear) {c : C} {s : Option S}
    (hj : d.Judged g (.construct c s) d') : d'.Clear := by
  obtain ⟨x, xs, y, -, -, rfl⟩ := hj.exists_resolved
  exact h.resolved x y _

end Session

open Session

namespace Parser

variable {d d' : Session C F S Y}

/-- What is known of mismatches at a moment: there is none, unless an error is on its way. -/
def Moment.IsClear : Moment C F S Y N → Session C F S Y → Prop
  | .following r, d => (r.Propagates ∧ d.Clear) ∨
    ∃ e, r = .done (.error e) ∧ d.ClearUpTo (.error e : Except ParseError (Option N))
  | .judged (.finish ending), d => d.ClearUpTo ending.outcome
  | .returned outcome, d => d.ClearUpTo outcome
  | .building, d | .judged (.construct _ _), d | .calling _ _, d => d.Clear

namespace Moment.IsClear

variable {r : Recipe C F S Y N (Option N)}

theorem tail {m : Moment C F S Y N} (h : m.IsClear d) :
    ∀ step ∈ d.log.tail, ¬step.IsMismatch := by
  cases m with
  | following r =>
    rcases h with ⟨-, hclear⟩ | ⟨e, -, hclear⟩
    · exact hclear.tail
    · exact hclear.tail
  | judged verdict =>
    cases verdict with
    | finish ending => exact ClearUpTo.tail h
    | construct c s => exact Clear.tail h
  | building | calling => exact Clear.tail h
  | returned outcome => exact ClearUpTo.tail h

/-- No error is on its way out of a recipe that goes on. -/
theorem goesOn (h : (following r).IsClear d) (hr : ∀ outcome, r ≠ .done outcome) :
    r.Propagates ∧ d.Clear :=
  h.resolve_right fun ⟨_, hdone, _⟩ ↦ hr _ hdone

/-- The rest of a recipe is handed the outcome of building, and an error ends it. -/
theorem handChildren {parent : String}
    {k : List N → Except ParseError Unit → Recipe C F S Y N (Option N)}
    (hk : (Recipe.children parent k).Propagates) (nodes : List N) {outcome : Except ParseError Unit}
    (hd : d.ClearUpTo outcome) : (following (k nodes outcome)).IsClear d := by
  rcases outcome with e | _
  · obtain ⟨e', hend⟩ := hk.1 nodes e
    exact .inr ⟨e', hend, hd.failed e'⟩
  · exact .inl ⟨hk.2 nodes, hd.clear _ rfl⟩

/-- It is handed the outcome of a constructor, likewise. -/
theorem handChild {c : C} {s : Option S}
    {k : Except ParseError (Option N) → Recipe C F S Y N (Option N)}
    (hk : (Recipe.child c s k).Propagates) {outcome : Except ParseError (Option N)}
    (hd : d.ClearUpTo outcome) : (following (k outcome)).IsClear d := by
  rcases outcome with e | node
  · obtain ⟨e', hend⟩ := hk.1 e
    exact .inr ⟨e', hend, hd.failed e'⟩
  · exact .inl ⟨hk.2 node, hd.clear _ rfl⟩

end Moment.IsClear

variable [DecidableEq S] [DecidableEq Y]

/-- A recipe that propagates errors records no mismatch but in the end. -/
theorem Moment.IsClear.follow {g : Grammar C F S Y} {build : Session C F S Y → Harvest C F S Y N}
    {run : C → Option S → Session C F S Y → Reply C F S Y (Option N)}
    (hbuild : ∀ {d nodes ending d'}, build d = some (nodes, ending, d') → d.Clear →
      d'.ClearUpTo ending.outcome)
    (hrun : ∀ {c s d outcome d'}, run c s d = some (outcome, d') → d.Clear → d'.ClearUpTo outcome)
    {r : Recipe C F S Y N (Option N)} (hr : (following r).IsClear d)
    {outcome : Except ParseError (Option N)} (h : r.follow g build run d = some (outcome, d')) :
    d'.ClearUpTo outcome := by
  induction r generalizing d with
  | done _ =>
    cases h
    rcases hr with ⟨-, hd⟩ | ⟨e, hdone, hd⟩
    · exact hd.upTo _
    · cases hdone
      exact hd
  | peek k ih =>
    obtain ⟨hk, hd⟩ := hr.goesOn (by simp)
    have hpeek : d.peek.2.Clear := hd
    exact ih _ (.inl ⟨hk _, hpeek⟩) h
  | take k ih =>
    obtain ⟨hk, hd⟩ := hr.goesOn (by simp)
    exact ih _ (.inl ⟨hk _, hd.take⟩) h
  | inspect k ih =>
    obtain ⟨hk, hd⟩ := hr.goesOn (by simp)
    exact ih _ _ (.inl ⟨hk _ _, hd⟩) h
  | children parent k ih =>
    obtain ⟨hk, hd⟩ := hr.goesOn (by simp)
    rw [Recipe.follow] at h
    split at h
    · cases h
    · next hb => exact ih _ _ (handChildren hk _ (hbuild hb (hd.record_children parent))) h
  | child c s k ih =>
    obtain ⟨hk, hd⟩ := hr.goesOn (by simp)
    rw [Recipe.follow] at h
    split at h
    · cases h
    · next hc => exact ih _ (handChild hk (hrun hc hd)) h

variable [Constructor C] [Diagnostic F] [Diagnostic S] [Diagnostic Y] {p : Parser C F S Y N}
  {reader : Lookahead F}

theorem Built.clearUpTo {g : Grammar C F S Y}
    {run : C → Option S → Session C F S Y → Reply C F S Y (Option N)}
    (hrun : ∀ {c s d outcome d'}, run c s d = some (outcome, d') → d.Clear → d'.ClearUpTo outcome)
    {nodes : List N} {ending : Ending S} (h : Built g run d nodes ending d') (hd : d.Clear) :
    d'.ClearUpTo ending.outcome := by
  induction h with
  | finish hj => exact hd.judged_finish hj
  | childFailed hj hr => exact (hrun hr ((hd.judged_construct hj).share _ _)).failed _
  | stalled hj hr => exact (hrun hr ((hd.judged_construct hj).share _ _)).failed _
  | next hj hr _ _ ih => exact ih ((hrun hr ((hd.judged_construct hj).share _ _)).clear _ rfl)

theorem clearUpTo_of_runConstructor (hp : ∀ c, (p.recipe c).Propagates) {bound : Nat} {c : C}
    {s : Option S} {outcome : Except ParseError (Option N)}
    (h : p.runConstructor bound c s d = some (outcome, d')) (hd : d.Clear) :
    d'.ClearUpTo outcome := by
  induction bound generalizing c s d d' outcome with
  | zero => cases h
  | succ bound ih =>
    obtain ⟨e, hf, rfl⟩ := exists_follow_of_runConstructor h
    have hstart : (Moment.following (p.recipe c)).IsClear (d.openFrame s) := .inl ⟨hp c, hd⟩
    have hclear : e.ClearUpTo outcome :=
      hstart.follow (fun hb ↦ (built_of_buildChildren hb).clearUpTo ih) ih hf
    exact ⟨hclear.tail, hclear.clear⟩

/-- If all constructors propagate errors, then at no moment is there a step behind a mismatch. -/
theorem Reaches.isClear (hp : ∀ c, (p.recipe c).Propagates) {n : Nat} {m : Moment C F S Y N}
    (h : p.Reaches reader n m d) : m.IsClear d := by
  induction h with
  | root => exact .inl ⟨hp _, fun _ hstep ↦ absurd hstep List.not_mem_nil⟩
  | peek _ ih =>
    obtain ⟨hk, hd⟩ := ih.goesOn (by simp)
    exact .inl ⟨hk _, hd⟩
  | take _ ih =>
    obtain ⟨hk, hd⟩ := ih.goesOn (by simp)
    exact .inl ⟨hk _, hd.take⟩
  | inspect _ ih =>
    obtain ⟨hk, hd⟩ := ih.goesOn (by simp)
    exact .inl ⟨hk _ _, hd⟩
  | build _ ih =>
    obtain ⟨-, hd⟩ := ih.goesOn (by simp)
    exact hd.record_children _
  | @judge n d _ ih =>
    have hj := d.judged p.grammar
    generalize d.judge p.grammar = verdict at hj ⊢
    obtain ⟨ending | ⟨c, s⟩, d'⟩ := verdict
    · exact Clear.judged_finish ih hj
    · exact Clear.judged_construct ih hj
  | call _ ih => exact Clear.share ih _ _
  | again _ hr _ ih => exact (clearUpTo_of_runConstructor hp hr (Clear.share ih _ _)).clear _ rfl
  | built _ hb ih =>
    obtain ⟨hk, hd⟩ := ih.goesOn (by simp)
    exact .handChildren hk _ ((built_of_buildChildren hb).clearUpTo (clearUpTo_of_runConstructor hp)
      (hd.record_children _))
  | child _ ih =>
    obtain ⟨-, hd⟩ := ih.goesOn (by simp)
    exact hd
  | enter _ ih => exact .inl ⟨hp _, ih⟩
  | leave _ hr ih => exact clearUpTo_of_runConstructor hp hr ih
  | resume _ hr ih =>
    obtain ⟨hk, hd⟩ := ih.goesOn (by simp)
    exact .handChild hk (clearUpTo_of_runConstructor hp hr hd)

/-- A mismatch is the last step so far. -/
theorem Reaches.mismatch_last (hp : ∀ c, (p.recipe c).Propagates) {n : Nat} {m : Moment C F S Y N}
    (h : p.Reaches reader n m d) {i : Nat} {step : Step C F S Y} (hi : d.steps[i]? = some step)
    (hstep : step.IsMismatch) : i + 1 = d.steps.length := by
  have htail := (h.isClear hp).tail
  rw [steps] at hi ⊢
  generalize d.log = log at hi htail ⊢
  obtain ⟨hlt, -⟩ := List.getElem?_eq_some_iff.1 hi
  rcases log with _ | ⟨last, earlier⟩
  · exact absurd hlt (Nat.not_lt_zero i)
  · rw [List.reverse_cons] at hi hlt ⊢
    rw [List.length_append, List.length_singleton] at hlt ⊢
    by_contra hne
    rw [List.getElem?_append_left (by omega)] at hi
    exact htail step (List.mem_reverse.1 (List.mem_of_getElem? hi)) hstep

/-- **The trace is an honest log.** At every moment of a parse, and when it has ended, each
comparison that found a symbol is followed at once by the transition of that symbol in the state on
top of the same stack; each transition that runs a constructor with a shared frame in a state of its
own, by the replacement of the top with this state; and each redirection with an enclosing frame, by
the replacement of that frame's state. These steps stand nowhere else. If all constructors propagate
errors, a comparison that found no symbol is the last step. -/
theorem trace_honest (p : Parser C F S Y N) :
    (∀ {reader n m d}, p.Reaches reader n m d → Honest p.grammar (m.settle d).steps) ∧
    (∀ {bound reader outcome d}, p.run bound reader = some (outcome, d) →
      Honest p.grammar d.steps) ∧
    ((∀ c, (p.recipe c).Propagates) →
      (∀ {reader n m d i σ x candidates}, p.Reaches reader n m d →
        d.steps[i]? = some ⟨σ, .analyzed x candidates none⟩ → i + 1 = d.steps.length) ∧
      ∀ {bound reader outcome d i σ x candidates}, p.run bound reader = some (outcome, d) →
        d.steps[i]? = some ⟨σ, .analyzed x candidates none⟩ → i + 1 = d.steps.length) := by
  refine ⟨fun h ↦ h.honest, fun h ↦ ?_, fun hp ↦ ⟨fun h hi ↦ ?_, fun h hi ↦ ?_⟩⟩
  · obtain ⟨outcome', hreach⟩ := exists_reaches_of_run h
    exact hreach.honest
  · exact h.mismatch_last hp hi ⟨_, _, rfl⟩
  · obtain ⟨outcome', hreach⟩ := exists_reaches_of_run h
    exact hreach.mismatch_last hp hi ⟨_, _, rfl⟩

end Parser

/-- The constructors of the outline parser propagate errors. -/
theorem Outline.propagates (m : Outline.Maker) : (Outline.parser.recipe m).Propagates :=
  (Outline.passesOn m).propagates

/-- An outline parse with a redirection, a frame that is shared, and in the end a chunk that nothing
matches. -/
theorem trace_honest_redirect : ∃ e d outcome,
    Outline.parser.run 6 (.ofList ["1 One", "1.1 Sub", "State A: go", "abc"]) =
      some (.error e, d) ∧
    Outline.parser.Reaches (.ofList ["1 One", "1.1 Sub", "State A: go", "abc"]) 0
      (.following (.done outcome)) d ∧
    Honest Outline.grammar d.steps ∧ (∀ m, (Outline.parser.recipe m).Propagates) ∧
    d.steps[13]? = some ⟨⟨.stateA, [.body]⟩, .analyzed "abc" [.stateB] none⟩ ∧
    13 + 1 = d.steps.length := by
  obtain ⟨e, d, hrun, hlast⟩ : ∃ e d,
      Outline.parser.run 6 (.ofList ["1 One", "1.1 Sub", "State A: go", "abc"]) =
        some (.error e, d) ∧
      d.steps[13]? = some ⟨⟨.stateA, [.body]⟩, .analyzed "abc" [.stateB] none⟩ :=
    ⟨_, _, rfl, rfl⟩
  obtain ⟨outcome, hreach⟩ := Parser.exists_reaches_of_run hrun
  exact ⟨e, d, outcome, hrun, hreach, (Parser.trace_honest Outline.parser).1 hreach,
    Outline.propagates, hlast,
    ((Parser.trace_honest Outline.parser).2.2 Outline.propagates).2 hrun hlast⟩

end FragmentParser
