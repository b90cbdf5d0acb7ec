import FragmentParser.Proofs.StackDiscipline

/-!
# Where steps are recorded

Steps are recorded where children are built: that the building begins, what the head fragment comes
to, and which state is replaced for it. `Session.Notes` lists what is recorded there, with the stack
that goes with it, which is the stack of the session unless a state is replaced.

A trace holds the steps of runs that are long over, and the sessions in which they were recorded are
gone. But whatever a run does it does at moments that the parse reaches, so **every step of a trace
was noted where the parse was about to judge a fragment** (`Parser.exists_notes_of_run`), and what
is known of those moments (`Parser.Reaches`) is known of the trace. The induction is the one on the
bound, with one lemma for each activity (`noted_of_follow`, `Built.noted`).
-/

namespace FragmentParser

variable {C F S Y N : Type} [DecidableEq S] [DecidableEq Y] [Constructor C]

/-- The step may be recorded where children are built in this session. -/
inductive Session.Notes (g : Grammar C F S Y) (d : Session C F S Y) : Step C F S Y → Prop where
  /-- The building begins. -/
  | children (parent : String) : Notes g d ⟨d.stack, .children parent⟩
  /-- There is no fragment. -/
  | exhausted : d.rest = [] → Notes g d ⟨d.stack, .exhausted⟩
  /-- The head fragment is compared with the applicable symbols. -/
  | analyzed {x : F} {xs : List F} (y : Option Y) : d.rest = x :: xs →
      Notes g d ⟨d.stack, .analyzed x (g.applicable d.state) y⟩
  /-- It has a transition. -/
  | transition {x : F} {xs : List F} {y : Y} {t : Transition C S} : d.rest = x :: xs →
      g.transition? d.stack x = some (y, t) → Notes g d ⟨d.stack, .transition d.state y t⟩
  /-- The frame is shared with a constructor. -/
  | topReplaced {x : F} {xs : List F} {y : Y} {c : C} {s : S} : d.rest = x :: xs →
      g.transition? d.stack x = some (y, .construct c (some s)) → Constructor.frame c = .shared →
      Notes g d ⟨d.stack.replaceTop s, .topReplaced d.state s⟩
  /-- The enclosing frame is redirected. -/
  | callerReplaced {x : F} {xs : List F} {y : Y} {s old : S} {σ : StateStack S} :
      d.rest = x :: xs → g.transition? d.stack x = some (y, .redirect s) →
      d.stack.replaceCaller? s = some (old, σ) → Notes g d ⟨σ, .callerReplaced old s⟩

namespace Session

variable {g : Grammar C F S Y} {d d' : Session C F S Y} {x : F} {xs : List F} {y : Y}

theorem notes_resolved {t : Transition C S} (hd : d.rest = x :: xs)
    (ht : g.transition? d.stack x = some (y, t)) :
    ∃ new, (d.resolved g x y t).log = new ++ d.log ∧ ∀ step ∈ new, d.Notes g step := by
  refine ⟨[_, _], d.log_resolved g x y t, ?_⟩
  exact List.forall_mem_cons.2 ⟨.transition hd ht, List.forall_mem_singleton.2 (.analyzed _ hd)⟩

variable [Diagnostic F] [Diagnostic S] [Diagnostic Y]

/-- A verdict that ends the building records what may be recorded there. -/
theorem Judged.notes {ending : Ending S} (h : d.Judged g (.finish ending) d') :
    ∃ new, d'.log = new ++ d.log ∧ ∀ step ∈ new, d.Notes g step := by
  cases h with
  | exhausted hd => exact ⟨[_], rfl, List.forall_mem_singleton.2 (.exhausted hd)⟩
  | unmatched hd => exact ⟨[_], rfl, List.forall_mem_singleton.2 (.analyzed none hd)⟩
  | stopped hd ht | orphaned hd ht => exact notes_resolved hd ht
  | redirected hd ht hσ =>
    obtain ⟨new, hlog, hnew⟩ := notes_resolved hd ht
    refine ⟨_ :: new, congrArg (List.cons _) hlog, ?_⟩
    exact List.forall_mem_cons.2 ⟨.callerReplaced hd ht hσ, hnew⟩

/-- So does one that runs a constructor, with what that does to the current state. -/
theorem Judged.notes_share {c : C} {s : Option S} (h : d.Judged g (.construct c s) d') :
    ∃ new, (d'.share c s).log = new ++ d.log ∧ ∀ step ∈ new, d.Notes g step := by
  obtain ⟨x, xs, y, hd, ht, rfl⟩ := h.exists_resolved
  obtain ⟨new, hlog, hnew⟩ := notes_resolved hd ht
  unfold share
  split
  next s hframe =>
    refine ⟨_ :: new, congrArg (List.cons _) hlog, ?_⟩
    exact List.forall_mem_cons.2 ⟨.topReplaced hd ht hframe, hnew⟩
  next => exact ⟨new, hlog, hnew⟩

end Session

variable [Diagnostic F] [Diagnostic S] [Diagnostic Y]

namespace Parser

/-- All recorded steps were noted where this parse builds children. -/
def Noted (p : Parser C F S Y N) (reader : Lookahead F) (d : Session C F S Y) : Prop :=
  ∀ step ∈ d.log, ∃ n e, p.Reaches reader n .building e ∧ e.Notes p.grammar step

variable {p : Parser C F S Y N} {reader : Lookahead F} {n bound : Nat} {d d' : Session C F S Y}

/-- What may be recorded where children are built is noted there. -/
theorem Noted.of_log (hd : p.Noted reader d) {e : Session C F S Y}
    (hreach : p.Reaches reader n .building e)
    (hnotes : ∃ new, d'.log = new ++ d.log ∧ ∀ step ∈ new, e.Notes p.grammar step) :
    p.Noted reader d' := by
  obtain ⟨new, hlog, hnew⟩ := hnotes
  intro step hstep
  rw [hlog] at hstep
  rcases List.mem_append.1 hstep with hstep | hstep
  · exact ⟨n, e, hreach, hnew step hstep⟩
  · exact hd step hstep

/-- A parse gets to where a constructor is run that it has decided on. -/
theorem Reaches.calling (hreach : p.Reaches reader n .building d) {c : C} {s : Option S}
    (hj : d.Judged p.grammar (.construct c s) d') :
    p.Reaches reader n (.calling c s) (d'.share c s) := by
  have hjudged := hreach.judge
  rw [hj.judge_eq] at hjudged
  exact hjudged.call

section Runs

variable (hrun : ∀ {n c s d outcome d'}, p.Reaches reader n (.calling c s) d →
  p.runConstructor bound c s d = some (outcome, d') → p.Noted reader d → p.Noted reader d')

include hrun

/-- Building children adds steps that were noted, if the runs of constructors do. -/
theorem Built.noted {nodes : List N} {ending : Ending S}
    (h : Built p.grammar (p.runConstructor bound) d nodes ending d')
    (hreach : p.Reaches reader n .building d) (hd : p.Noted reader d) : p.Noted reader d' := by
  induction h with
  | finish hj => exact hd.of_log hreach hj.notes
  | childFailed hj hr | stalled hj hr =>
    exact hrun (hreach.calling hj) hr (hd.of_log hreach hj.notes_share)
  | next hj hr hstall _ ih =>
    have hjudged := hreach.judge
    rw [hj.judge_eq] at hjudged
    exact ih (hjudged.again hr hstall)
      (hrun (hreach.calling hj) hr (hd.of_log hreach hj.notes_share))

/-- So does a recipe that is followed. -/
theorem noted_of_follow {r : Recipe C F S Y N (Option N)}
    {outcome : Except ParseError (Option N)}
    (hf : r.follow p.grammar (buildChildren p.grammar (p.runConstructor bound) bound)
      (p.runConstructor bound) d = some (outcome, d'))
    (hreach : p.Reaches reader n (.following r) d) (hd : p.Noted reader d) :
    p.Noted reader d' := by
  induction r generalizing d with
  | done _ =>
    cases hf
    exact hd
  | peek k ih => exact ih _ hf hreach.peek hd
  | take k ih => exact ih _ hf hreach.take (by rwa [Noted, Session.log_take])
  | inspect k ih => exact ih _ _ hf hreach.inspect hd
  | children parent k ih =>
    rw [Recipe.follow] at hf
    split at hf
    · cases hf
    next hb =>
      have hbegin : p.Noted reader (d.record (.children parent)) := hd.of_log hreach.build
        ⟨[_], rfl, List.forall_mem_singleton.2 (.children parent)⟩
      exact ih _ _ hf (hreach.built hb) ((built_of_buildChildren hb).noted hrun hreach.build hbegin)
  | child c s k ih =>
    rw [Recipe.follow] at hf
    split at hf
    · cases hf
    next hr => exact ih _ hf (hreach.resume hr) (hrun hreach.child hr hd)

end Runs

theorem noted_of_runConstructor {c : C} {s : Option S} {outcome : Except ParseError (Option N)}
    (hreach : p.Reaches reader n (.calling c s) d)
    (h : p.runConstructor bound c s d = some (outcome, d')) (hd : p.Noted reader d) :
    p.Noted reader d' := by
  induction bound generalizing n c s d d' outcome with
  | zero => cases h
  | succ bound ih =>
    obtain ⟨e, hf, rfl⟩ := exists_follow_of_runConstructor h
    have he : p.Noted reader e := noted_of_follow ih hf hreach.enter hd
    exact he

/-- **Every step of a trace was noted where the parse was about to judge a fragment.** -/
theorem exists_notes_of_run {outcome : Except ParseError N}
    (h : p.run bound reader = some (outcome, d)) :
    ∀ step ∈ d.steps, ∃ n e, p.Reaches reader n .building e ∧ e.Notes p.grammar step := by
  obtain ⟨outcome', hf, -⟩ := exists_follow_of_run h
  have hd : p.Noted reader d := noted_of_follow noted_of_runConstructor hf .root (by
    intro step hstep
    cases hstep)
  exact fun step hstep ↦ hd step (List.mem_reverse.1 hstep)

end Parser

end FragmentParser
