import FragmentParser.Blueprint
import FragmentParser.Proofs.Correspondence
import FragmentParser.Proofs.Grammar.Views
import FragmentParser.Proofs.Outline.Transitions
import Mathlib.Data.List.Forall2

/-!
# Precedence

The order of the recognizers decides between those that accept the same fragment, and it is the
order in which symbols are listed. Two neighbours that accept no common fragment may be swapped:
then the lists of symbols are **reordered**, and nothing else of the grammar changes
(`Grammar.reordered_swap`).

Lists of symbols get into what is recorded, into the errors for fragments that no recognizer
matches, and into the hands of constructors. So two runs of a parse are compared by relations that
allow for lists in another order in these places, and nowhere else. A recipe ignores the order if it
is related to itself: from views, and from errors, that differ in lists of symbols alone it goes on
in the same way (`Recipe.IgnoresOrder`). This is a logical relation, and not every recipe has it. It
is what all recipes that pass errors on have (`Recipe.PassesOn.ignoresOrder`), and those of all
blueprints.
-/

namespace FragmentParser

variable {C F S Y N : Type}

/-! ### Related data -/

/-- The errors are the same up to the order of the symbols that were tried. -/
inductive ParseError.Reordered : ParseError → ParseError → Prop where
  /-- They are the same. -/
  | same (e : ParseError) : Reordered e e
  /-- The same fragment is not matched in the same state. -/
  | tried {fragment state : String} {ys ys' : List String} : ys.Perm ys' →
      Reordered (.noRecognizerMatch fragment state ys) (.noRecognizerMatch fragment state ys')

/-- The outcomes are the same value, or errors that are the same up to the order of symbols. -/
inductive SameOutcome {α : Type} : Except ParseError α → Except ParseError α → Prop where
  /-- The value is the same. -/
  | ok (a : α) : SameOutcome (.ok a) (.ok a)
  /-- The errors are the same up to the order of symbols. -/
  | error {e e' : ParseError} : e.Reordered e' → SameOutcome (.error e) (.error e')

theorem SameOutcome.refl {α : Type} (outcome : Except ParseError α) : SameOutcome outcome outcome := by
  rcases outcome with e | a
  · exact .error (.same e)
  · exact .ok a

/-- The endings are the same up to the order of symbols in an error. -/
inductive Ending.Reordered : Ending S → Ending S → Prop where
  /-- They are the same. -/
  | same (ending : Ending S) : Reordered ending ending
  /-- The building itself failed. -/
  | failed {e e' : ParseError} : e.Reordered e' → Reordered (.failed e) (.failed e')
  /-- A constructor failed. -/
  | childFailed {e e' : ParseError} : e.Reordered e' → Reordered (.childFailed e) (.childFailed e')

theorem Ending.Reordered.sameOutcome {ending ending' : Ending S} (h : ending.Reordered ending') :
    SameOutcome ending.outcome ending'.outcome := by
  cases h with
  | same => exact .refl _
  | failed he => exact .error he
  | childFailed he => exact .error he

/-- The events are the same up to the order of the applicable symbols. -/
inductive Event.Reordered : Event C F S Y → Event C F S Y → Prop where
  /-- They are the same. -/
  | same (event : Event C F S Y) : Reordered event event
  /-- The same fragment was compared with the same symbols. -/
  | analyzed {x : F} {candidates candidates' : List Y} {matched : Option Y} :
      candidates.Perm candidates' →
      Reordered (.analyzed x candidates matched) (.analyzed x candidates' matched)

/-- The steps are the same up to the order of symbols. -/
structure Step.Reordered (step step' : Step C F S Y) : Prop where
  /-- The stacks are the same. -/
  stack_eq : step.stack = step'.stack
  /-- The events are the same up to the order of symbols. -/
  event : step.event.Reordered step'.event

/-- What can be seen of two grammars is the same up to the order of the symbols. -/
structure Grammar.View.Reordered (v v' : Grammar.View C F S Y) : Prop where
  /-- The symbols are the same, in some order. -/
  symbols : v.symbols.Perm v'.symbols
  /-- The applicable symbols are the same, in some order. -/
  applicable : ∀ s, (v.applicable s).Perm (v'.applicable s)
  /-- Fragments have the same symbols. -/
  recognize_eq : v.recognize = v'.recognize
  /-- The rules are the same. -/
  rule?_eq : v.rule? = v'.rule?
  /-- There are as many rules. -/
  ruleCount_eq : v.ruleCount = v'.ruleCount
  /-- The state of the root is the same. -/
  initialState_eq : v.initialState = v'.initialState
  /-- The constructor of the root is the same. -/
  initialConstructor_eq : v.initialConstructor = v'.initialConstructor

namespace Recipe

variable {α β : Type}

/-- The recipes do the same if they are handed the same up to the order of symbols. -/
inductive Reordered : Recipe C F S Y N α → Recipe C F S Y N α → Prop where
  | done {outcome outcome'} : SameOutcome outcome outcome' →
      Reordered (.done outcome) (.done outcome')
  | peek {k k'} : (∀ x, Reordered (k x) (k' x)) → Reordered (.peek k) (.peek k')
  | take {k k'} : (∀ x, Reordered (k x) (k' x)) → Reordered (.take k) (.take k')
  | inspect {k k'} : (∀ σ v v', v.Reordered v' → Reordered (k σ v) (k' σ v')) →
      Reordered (.inspect k) (.inspect k')
  | children {parent k k'} :
      (∀ nodes outcome outcome', SameOutcome outcome outcome' →
        Reordered (k nodes outcome) (k' nodes outcome')) →
      Reordered (.children parent k) (.children parent k')
  | child {c s k k'} :
      (∀ outcome outcome', SameOutcome outcome outcome' →
        Reordered (k outcome) (k' outcome')) →
      Reordered (.child c s k) (.child c s k')

/-- The recipe does not look at the order of symbols, neither in the lists of the grammar nor where
an error lists them. -/
def IgnoresOrder (r : Recipe C F S Y N α) : Prop := r.Reordered r

/-- What passes errors on and does not look at the grammar ignores the order of its symbols. -/
theorem PassesOn.ignoresOrder {r : Recipe C F S Y N α} (hr : r.PassesOn) : r.IgnoresOrder := by
  induction r with
  | done outcome => exact .done (.refl outcome)
  | peek k ih => exact .peek fun x ↦ ih x (hr x)
  | take k ih => exact .take fun x ↦ ih x (hr x)
  | inspect k ih =>
    refine .inspect fun σ v v' _ ↦ ?_
    rw [hr.1 σ v v']
    exact ih σ v' (hr.2 σ v')
  | children parent k ih =>
    refine .children fun nodes outcome outcome' ho ↦ ?_
    cases ho with
    | ok => exact ih nodes _ (hr.2 nodes)
    | error he =>
      rw [hr.1, hr.1]
      exact .done (.error he)
  | child c s k ih =>
    refine .child fun outcome outcome' ho ↦ ?_
    cases ho with
    | ok node => exact ih _ (hr.2 node)
    | error he =>
      rw [hr.1, hr.1]
      exact .done (.error he)

theorem Reordered.bind {r r' : Recipe C F S Y N α} {f f' : α → Recipe C F S Y N β}
    (hr : r.Reordered r') (hf : ∀ a, (f a).Reordered (f' a)) : (r >>= f).Reordered (r' >>= f') := by
  show (r.bind f).Reordered (r'.bind f')
  induction hr with
  | done ho =>
    cases ho with
    | ok a => exact hf a
    | error he => exact .done (.error he)
  | peek _ ih => exact .peek ih
  | take _ ih => exact .take ih
  | inspect _ ih => exact .inspect ih
  | children _ ih => exact .children ih
  | child _ ih => exact .child ih

end Recipe

/-- **Recipes of blueprints ignore the order of symbols.** One of their steps looks at the
applicable symbols, but only counts them. -/
theorem Blueprint.ignoresOrder (b : Blueprint) (handle : Handle) : (b.recipe handle).IgnoresOrder := by
  have hpure : ∀ {α : Type} (a : α), (pure a : Blueprint.Work α).Reordered (pure a) := fun a ↦
    .done (.ok a)
  have hwork : ∀ own e task, (b.work own e task).Reordered (b.work own e task) := by
    intro own e task
    cases task with
    | tryText => exact .bind (.take fun _ ↦ hpure _) fun _ ↦ hpure _
    | peek => exact .bind Recipe.passesOn_look.ignoresOrder fun _ ↦ hpure _
    | children | nodes =>
      exact .bind (Recipe.passesOn_childrenOf _).ignoresOrder fun _ ↦ hpure _
    | child name state =>
      rw [Blueprint.work]
      rcases b.plan? name with _ | plan
      · exact .done (.refl _)
      · exact .bind (Recipe.passesOn_childOf _ _).ignoresOrder fun _ ↦ hpure _
    | whereabouts name =>
      refine .inspect fun σ v v' hv ↦ ?_
      rw [(hv.applicable σ.top).length_eq]
      exact hpure _
    | fail message => exact .done (.refl _)
    | _ => exact .bind Recipe.passesOn_next.ignoresOrder fun _ ↦ hpure _
  have hall : ∀ own tasks e, (b.workAll own e tasks).Reordered (b.workAll own e tasks) := by
    intro own tasks
    induction tasks with
    | nil => exact fun e ↦ hpure e
    | cons task tasks ih => exact fun e ↦ (hwork own e task).bind ih
  rw [Blueprint.recipe]
  rcases b.plan? handle.name with _ | plan
  · exact hpure none
  · exact (hall ..).bind fun e ↦ .done (.refl _)

/-! ### Related sessions -/

namespace Session

/-- The sessions are the same up to the order of symbols in what was recorded. -/
structure Reordered (d e : Session C F S Y) : Prop where
  /-- The readers are the same. -/
  reader_eq : d.reader = e.reader
  /-- The states are the same. -/
  stack_eq : d.stack = e.stack
  /-- As many fragments were taken. -/
  taken_eq : d.taken = e.taken
  /-- The same steps were recorded. -/
  log : List.Forall₂ Step.Reordered d.log e.log

namespace Reordered

variable {d e : Session C F S Y}

theorem refl (d : Session C F S Y) : d.Reordered d :=
  ⟨rfl, rfl, rfl, List.forall₂_same.2 fun step _ ↦ ⟨rfl, .same step.event⟩⟩

theorem state_eq (h : d.Reordered e) : d.state = e.state := congrArg StateStack.top h.stack_eq

theorem rest_eq (h : d.Reordered e) : d.rest = e.rest := by rw [rest, rest, h.reader_eq]

theorem record (h : d.Reordered e) {event event' : Event C F S Y} (hevent : event.Reordered event') :
    (d.record event).Reordered (e.record event') :=
  ⟨h.reader_eq, h.stack_eq, h.taken_eq, .cons ⟨h.stack_eq, hevent⟩ h.log⟩

/-- The single operations of a parse keep sessions the same up to the order of symbols. -/
theorem correspondence :
    Correspondence (fun _ ↦ True) (Reordered : Session C F S Y → Session C F S Y → Prop) where
  of_peek _ := trivial
  of_next _ := trivial
  stack_eq h := h.stack_eq
  taken_iff h h' := by rw [h.taken_eq, h'.taken_eq]
  peek h _ := by
    refine ⟨by rw [peek_fst, peek_fst, h.rest_eq], ?_, h.stack_eq, h.taken_eq, h.log⟩
    rw [reader_peek, reader_peek, h.reader_eq]
  take {d e} h _ := by
    refine ⟨by rw [take_fst, take_fst, h.rest_eq], ?_, ?_, ?_, ?_⟩
    · rw [reader_take, reader_take, h.reader_eq]
    · rw [stack_take, stack_take, h.stack_eq]
    · rw [take, take, h.reader_eq, h.taken_eq]
      rcases e.reader.next with ⟨_ | x, r⟩ <;> rfl
    · rw [log_take, log_take]
      exact h.log
  record h event := h.record (.same event)
  withStack h _ := ⟨h.reader_eq, rfl, h.taken_eq, h.log⟩

end Reordered

end Session

/-! ### Related runs -/

/-- Neither activity ends within its bound, or both end with the same outcome and session, up to the
order of symbols. -/
inductive SameReply {α : Type} : Reply C F S Y α → Reply C F S Y α → Prop where
  | beyond : SameReply none none
  | ended {outcome outcome' d d'} : SameOutcome outcome outcome' → d.Reordered d' →
      SameReply (some (outcome, d)) (some (outcome', d'))

/-- If the one ends because nothing matches a fragment, so does the other. -/
theorem SameReply.exists_tried {α : Type} {fragment state : String} {ys : List String}
    {d : Session C F S Y} {reply : Reply C F S Y α}
    (h : SameReply (some (.error (.noRecognizerMatch fragment state ys), d)) reply) :
    ∃ ys' d', ys.Perm ys' ∧ reply = some (.error (.noRecognizerMatch fragment state ys'), d') := by
  obtain _ | ⟨_ | ⟨_ | hperm⟩, -⟩ := h
  · exact ⟨ys, _, .refl ys, rfl⟩
  · exact ⟨_, _, hperm, rfl⟩

/-- Neither building of children ends within its bound, or both end with the same nodes, and with
the same ending and session up to the order of symbols. -/
inductive SameHarvest : Harvest C F S Y N → Harvest C F S Y N → Prop where
  | beyond : SameHarvest none none
  | ended {nodes ending ending' d d'} : ending.Reordered ending' → d.Reordered d' →
      SameHarvest (some (nodes, ending, d)) (some (nodes, ending', d'))

variable [DecidableEq S] [DecidableEq Y] {g g' : Grammar C F S Y}
  (hg : g.view.Reordered g'.view)

include hg

theorem Grammar.transition?_eq_of_reordered (σ : StateStack S) (x : F) :
    g.transition? σ x = g'.transition? σ x := by
  have hrecognize : g.recognize = g'.recognize := hg.recognize_eq
  have hrule : g.rule? = g'.rule? := hg.rule?_eq
  rw [transition?, transition?, hrecognize, hrule]

namespace Session

variable {d d' e : Session C F S Y}

theorem Reordered.resolved (h : d.Reordered e) (x : F) (y : Y) (t : Transition C S) :
    (d.resolved g x y t).Reordered (e.resolved g' x y t) := by
  obtain ⟨-, hpeek⟩ := Reordered.correspondence.peek h trivial
  rw [Session.resolved, Session.resolved, h.state_eq]
  exact (hpeek.record (.analyzed (hg.applicable _))).record (.same _)

variable [Diagnostic F] [Diagnostic S] [Diagnostic Y]

/-- The verdicts are the same: they run the same constructor in the same state, or the endings are
the same up to the order of symbols. -/
theorem Judged.exists_reordered {v : Verdict C S} (hj : d.Judged g v d') (h : d.Reordered e) :
    ∃ v' e', e.Judged g' v' e' ∧ d'.Reordered e' ∧
      (v = v' ∨ ∃ ending ending', v = .finish ending ∧ v' = .finish ending' ∧
        ending.Reordered ending') := by
  obtain ⟨-, hpeek⟩ := Reordered.correspondence.peek h trivial
  have htransition : ∀ x, g.transition? d.stack x = g'.transition? e.stack x := fun x ↦ by
    rw [Grammar.transition?_eq_of_reordered hg, h.stack_eq]
  cases hj with
  | exhausted hd =>
    exact ⟨_, _, .exhausted (h.rest_eq ▸ hd), hpeek.record (.same _), .inl rfl⟩
  | @unmatched x xs hd ht =>
    refine ⟨_, _, .unmatched (h.rest_eq ▸ hd) (htransition x ▸ ht), ?_, .inr ⟨_, _, rfl, rfl, ?_⟩⟩
    · rw [h.state_eq]
      exact hpeek.record (.analyzed (hg.applicable _))
    · rw [h.state_eq]
      exact .failed (.tried ((hg.applicable _).map text))
  | @stopped x xs y hd ht =>
    exact ⟨_, _, .stopped (h.rest_eq ▸ hd) (htransition x ▸ ht), h.resolved hg x y .stop, .inl rfl⟩
  | @redirected x xs y s old σ hd ht hσ =>
    refine ⟨_, _, .redirected (h.rest_eq ▸ hd) (htransition x ▸ ht) (h.stack_eq ▸ hσ), ?_, .inl rfl⟩
    exact (Reordered.correspondence.withStack (h.resolved hg x y (.redirect s)) σ).record (.same _)
  | @orphaned x xs y s hd ht hσ =>
    refine ⟨_, _, .orphaned (h.rest_eq ▸ hd) (htransition x ▸ ht) (h.stack_eq ▸ hσ),
      h.resolved hg x y (.redirect s), .inl ?_⟩
    rw [h.state_eq]
  | @construct x xs y c s hd ht =>
    exact ⟨_, _, .construct (h.rest_eq ▸ hd) (htransition x ▸ ht), h.resolved hg x y (.construct c s),
      .inl rfl⟩

end Session

/-- Recipes that do the same are followed to the same outcome, if building children and running
constructors do the same. -/
theorem Recipe.Reordered.sameReply_follow {α : Type}
    {build build' : Session C F S Y → Harvest C F S Y N}
    {run run' : C → Option S → Session C F S Y → Reply C F S Y (Option N)}
    (hbuild : ∀ d e, d.Reordered e → SameHarvest (build d) (build' e))
    (hrun : ∀ c s d e, d.Reordered e → SameReply (run c s d) (run' c s e))
    {r r' : Recipe C F S Y N α} (hr : r.Reordered r') {d e : Session C F S Y} (h : d.Reordered e) :
    SameReply (r.follow g build run d) (r'.follow g' build' run' e) := by
  have hR := Session.Reordered.correspondence (C := C) (F := F) (S := S) (Y := Y)
  induction hr generalizing d e with
  | done ho => exact .ended ho h
  | peek _ ih =>
    obtain ⟨hfst, hpeek⟩ := hR.peek h trivial
    rw [follow, follow, hfst]
    exact ih _ hpeek
  | take _ ih =>
    obtain ⟨hfst, htake⟩ := hR.take h trivial
    rw [follow, follow, hfst]
    exact ih _ htake
  | inspect _ ih =>
    rw [follow, follow, h.stack_eq]
    exact ih _ _ _ hg h
  | @children parent k k' _ ih =>
    have hharvest := hbuild _ _ (hR.record h (.children parent))
    rw [follow, follow]
    generalize build (d.record (.children parent)) = harvest at hharvest ⊢
    generalize build' (e.record (.children parent)) = harvest' at hharvest ⊢
    cases hharvest with
    | beyond => exact .beyond
    | ended hending hafter => exact ih _ _ _ hending.sameOutcome hafter
  | @child c s k k' _ ih =>
    have hreply := hrun c s d e h
    rw [follow, follow]
    generalize run c s d = reply at hreply ⊢
    generalize run' c s e = reply' at hreply ⊢
    cases hreply with
    | beyond => exact .beyond
    | ended ho hafter => exact ih _ _ ho hafter

namespace Parser

variable [Constructor C] [Diagnostic F] [Diagnostic S] [Diagnostic Y]

/-- One iteration after another, the same constructors are run in the same states. -/
theorem sameHarvest_buildChildren
    {run run' : C → Option S → Session C F S Y → Reply C F S Y (Option N)}
    (hrun : ∀ c s d e, d.Reordered e → SameReply (run c s d) (run' c s e)) (bound : Nat)
    (d e : Session C F S Y) (h : d.Reordered e) :
    SameHarvest (buildChildren g run bound d) (buildChildren g' run' bound e) := by
  induction bound generalizing d e with
  | zero => exact .beyond
  | succ bound ih =>
    obtain ⟨v', e₁, hj', h₁, hv⟩ := (d.judged g).exists_reordered hg h
    have hjudge' := hj'.judge_eq
    rw [buildChildren, buildChildren, hjudge']
    generalize d.judge g = verdict at h₁ hv ⊢
    obtain ⟨v, d₁⟩ := verdict
    obtain rfl | ⟨ending, ending', rfl, rfl, hending⟩ := hv
    · rcases v with ending | ⟨c, s⟩
      · exact .ended (.same ending) h₁
      · have hreply := hrun c s _ _ (Session.Reordered.correspondence.share h₁ c s)
        dsimp only
        generalize run c s (d₁.share c s) = reply at hreply ⊢
        generalize run' c s (e₁.share c s) = reply' at hreply ⊢
        cases hreply with
        | beyond => exact .beyond
        | @ended outcome outcome' d₂ e₂ ho h₂ =>
          cases ho with
          | error he => exact .ended (.childFailed he) h₂
          | ok node =>
            dsimp only
            rw [h₂.taken_eq, h₁.taken_eq, h₂.state_eq, h₁.state_eq]
            split
            · exact .ended (.same _) h₂
            · have hharvest := ih _ _ h₂
              generalize buildChildren g run bound d₂ = harvest at hharvest ⊢
              generalize buildChildren g' run' bound e₂ = harvest' at hharvest ⊢
              cases hharvest with
              | beyond => exact .beyond
              | ended hending hafter => exact .ended hending hafter
    · exact .ended hending h₁

variable {recipe : C → Recipe C F S Y N (Option N)} (hrecipe : ∀ c, (recipe c).IgnoresOrder)

include hrecipe

theorem sameReply_runConstructor (bound : Nat) (c : C) (s : Option S) (d e : Session C F S Y)
    (h : d.Reordered e) : SameReply ((⟨g, recipe⟩ : Parser C F S Y N).runConstructor bound c s d)
      ((⟨g', recipe⟩ : Parser C F S Y N).runConstructor bound c s e) := by
  induction bound generalizing c s d e with
  | zero => exact .beyond
  | succ bound ih =>
    have hreply := (hrecipe c).sameReply_follow hg (sameHarvest_buildChildren hg ih bound) ih
      (Session.Reordered.correspondence.openFrame h s)
    rw [runConstructor, runConstructor]
    dsimp only
    generalize (recipe c).follow g _ _ (d.openFrame s) = reply at hreply ⊢
    generalize (recipe c).follow g' _ _ (e.openFrame s) = reply' at hreply ⊢
    cases hreply with
    | beyond => exact .beyond
    | ended ho hafter => exact .ended ho (Session.Reordered.correspondence.closeFrame hafter)

/-- **Parses with reordered symbols do the same**, if no constructor looks at the order. -/
theorem sameReply_run (bound : Nat) (reader : Lookahead F) :
    SameReply ((⟨g, recipe⟩ : Parser C F S Y N).run bound reader)
      ((⟨g', recipe⟩ : Parser C F S Y N).run bound reader) := by
  have hstate : g.initialState = g'.initialState := hg.initialState_eq
  have hconstructor : g.initialConstructor = g'.initialConstructor := hg.initialConstructor_eq
  have hreply := (hrecipe g'.initialConstructor).sameReply_follow hg
    (sameHarvest_buildChildren hg (sameReply_runConstructor hg hrecipe bound) bound)
    (sameReply_runConstructor hg hrecipe bound)
    (.refl (Session.start reader g'.initialState))
  simp only [run, hstate, hconstructor]
  generalize (recipe g'.initialConstructor).follow g _ _ _ = reply at hreply ⊢
  generalize (recipe g'.initialConstructor).follow g' _ _ _ = reply' at hreply ⊢
  cases hreply with
  | beyond => exact .beyond
  | ended ho hafter =>
    cases ho with
    | error he => exact .ended (.error he) hafter
    | ok node =>
      rcases node with _ | node
      · exact .ended (.error (.same _)) hafter
      · exact .ended (.ok node) hafter

end Parser

omit hg

/-! ### Neighbours that accept no common fragment -/

/-- Of two neighbours that do not both fit it makes no difference which comes first. -/
theorem find?_swap {α : Type} {fits : α → Bool} {before after : List α} {u v : α}
    (h : ¬(fits u = true ∧ fits v = true)) :
    (before ++ u :: v :: after).find? fits = (before ++ v :: u :: after).find? fits := by
  rw [List.find?_append, List.find?_append]
  refine congrArg (Option.or _) ?_
  rw [List.find?_cons, List.find?_cons, List.find?_cons, List.find?_cons]
  rcases hu : fits u <;> rcases hv : fits v
  · rfl
  · rfl
  · rfl
  · exact absurd ⟨hu, hv⟩ h

section Swap

variable [Diagnostic S] [Diagnostic Y] {d : Grammar.Draft C F S Y} {y z : Y} {a b : F → Bool}
  {before after : List (Y × (F → Bool))}

/-- An accepted draft is accepted with two neighbours swapped, and if these accept no common
fragment the lists of symbols alone change. -/
theorem Grammar.reordered_swap (hd : d.recognizers = before ++ (y, a) :: (z, b) :: after)
    (hdisjoint : ∀ x, ¬(a x = true ∧ b x = true)) (h : d.build = .ok g) :
    ∃ g', ({ d with recognizers := before ++ (z, b) :: (y, a) :: after } :
        Grammar.Draft C F S Y).build = .ok g' ∧ g.view.Reordered g'.view := by
  obtain ⟨haccepted, hstart, hrecognizers, hrules⟩ := Draft.build_eq_ok_iff.1 h
  have hperm : d.recognizers.Perm (before ++ (z, b) :: (y, a) :: after) := by
    rw [hd]
    exact List.Perm.append_left before (List.Perm.swap ..)
  have hsymbols := hperm.map Prod.fst
  obtain ⟨g', h'⟩ := Draft.Accepted.exists_build
    (d := { d with recognizers := before ++ (z, b) :: (y, a) :: after })
    ⟨haccepted.initial, hsymbols.nodup_iff.1 haccepted.nodup_symbols,
      fun k hk ↦ hsymbols.mem_iff.1 (haccepted.registered k hk), haccepted.nodup_keys⟩
  obtain ⟨-, hstart', hrecognizers', hrules'⟩ := Draft.build_eq_ok_iff.1 h'
  have hbeginning := hstart.symm.trans hstart'
  have hrule : g.rule? = g'.rule? := by
    funext s w
    rw [rule?, rule?, hrules, hrules']
  refine ⟨g', h', ?_, fun s ↦ ?_, ?_, hrule, ?_, ?_, ?_⟩
  · show g.symbols.Perm g'.symbols
    rw [symbols, symbols, hrecognizers, hrecognizers']
    exact hsymbols
  · show (g.applicable s).Perm (g'.applicable s)
    rw [applicable, applicable, symbols, symbols, hrecognizers, hrecognizers', hrule]
    exact hsymbols.filter _
  · show g.recognize = g'.recognize
    funext s x
    rw [recognize, recognize, hrecognizers, hrecognizers', hrule, hd]
    refine congrArg (Option.map Prod.fst) (find?_swap fun hboth ↦ hdisjoint x ⟨?_, ?_⟩)
    · exact (Bool.and_eq_true_iff.1 hboth.1).2
    · exact (Bool.and_eq_true_iff.1 hboth.2).2
  · show g.rules.length = g'.rules.length
    rw [hrules, hrules']
  · exact (Prod.mk.inj (Option.some.inj hbeginning)).1
  · exact (Prod.mk.inj (Option.some.inj hbeginning)).2

/-- **The order of two neighbours that accept no common fragment is of no account.** With the two
swapped an accepted draft is accepted, and if no constructor looks at the order of symbols, every
parse comes to the same tree or to the same error, but for the order of the symbols that were tried;
it takes the same fragments through the same states. -/
theorem Parser.run_swap [Constructor C] [Diagnostic F]
    (hd : d.recognizers = before ++ (y, a) :: (z, b) :: after)
    (hdisjoint : ∀ x, ¬(a x = true ∧ b x = true)) (h : d.build = .ok g) :
    ∃ g', ({ d with recognizers := before ++ (z, b) :: (y, a) :: after } :
        Grammar.Draft C F S Y).build = .ok g' ∧
      ∀ recipe : C → Recipe C F S Y N (Option N), (∀ c, (recipe c).IgnoresOrder) →
        ∀ (bound : Nat) (reader : Lookahead F),
          SameReply ((⟨g, recipe⟩ : Parser C F S Y N).run bound reader)
            ((⟨g', recipe⟩ : Parser C F S Y N).run bound reader) := by
  obtain ⟨g', h', hg⟩ := Grammar.reordered_swap hd hdisjoint h
  exact ⟨g', h', fun recipe hrecipe bound reader ↦ sameReply_run hg hrecipe bound reader⟩

end Swap

/-- An outline with roman items before decimal ones: the error of a chunk that nothing matches lists
the two the other way round. -/
theorem Parser.run_swap_items : ∃ g' : Outline.Table,
    ({ Outline.draft with
        recognizers := (.liRoman, Outline.isItemOf .roman) ::
          (.liDecimal, Outline.isItemOf .decimal) :: Outline.draft.recognizers.drop 2 } :
      Grammar.Draft Outline.Maker String Outline.State Outline.Symbol).build = .ok g' ∧
    (∀ m, (Outline.parser.recipe m).IgnoresOrder) ∧
    (∀ bound reader, SameReply (Outline.parser.run bound reader)
      ((⟨g', Outline.parser.recipe⟩ :
        Parser Outline.Maker String Outline.State Outline.Symbol Node).run bound reader)) ∧
    ∃ tried e, tried.Perm
        ["LiDecimal", "LiRoman", "LiAlpha", "Section", "Subsection", "Preformatted", "Paragraph"] ∧
      (⟨g', Outline.parser.recipe⟩ :
        Parser Outline.Maker String Outline.State Outline.Symbol Node).run 8
          (.ofList ["1 One", "abc"]) =
        some (.error (.noRecognizerMatch "\"abc\"" "Section" tried), e) := by
  have hdisjoint : ∀ x, ¬(Outline.isItemOf .decimal x = true ∧ Outline.isItemOf .roman x = true) := by
    rintro x ⟨hdecimal, hroman⟩
    rw [Outline.isItemOf_iff] at hdecimal hroman
    exact absurd (hdecimal.symm.trans hroman) (by decide)
  have hrecipe : ∀ m, (Outline.parser.recipe m).IgnoresOrder := fun m ↦
    (Outline.passesOn m).ignoresOrder
  have hd : Outline.draft.recognizers = [] ++ (.liDecimal, Outline.isItemOf .decimal) ::
      (.liRoman, Outline.isItemOf .roman) :: Outline.draft.recognizers.drop 2 := rfl
  obtain ⟨g', h', hrun⟩ := Parser.run_swap (N := Node) hd hdisjoint Outline.build_draft
  refine ⟨g', h', hrecipe, hrun _ hrecipe, ?_⟩
  obtain ⟨e, hunmatched⟩ : ∃ e, Outline.parser.run 8 (.ofList ["1 One", "abc"]) =
      some (.error (.noRecognizerMatch "\"abc\"" "Section"
        ["LiDecimal", "LiRoman", "LiAlpha", "Section", "Subsection", "Preformatted", "Paragraph"]),
          e) := ⟨_, rfl⟩
  have hreply := hrun Outline.parser.recipe hrecipe 8 (.ofList ["1 One", "abc"])
  have hparser : (⟨Outline.grammar, Outline.parser.recipe⟩ :
      Parser Outline.Maker String Outline.State Outline.Symbol Node) = Outline.parser := rfl
  rw [hparser, hunmatched] at hreply
  obtain ⟨tried, e', hperm, hrun'⟩ := hreply.exists_tried
  exact ⟨tried, e', hperm.symm, hrun'⟩

end FragmentParser
