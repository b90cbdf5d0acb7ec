import FragmentParser.Proofs.Frame
import FragmentParser.Proofs.Iteration

/-!
# The stack discipline of parsers

The state stack is written in three ways: a frame is opened and closed around every run of a
constructor, a constructor with a shared frame moves the current state, and a redirection moves the
state **one level below**. Recipes are arbitrary and may catch errors, so the discipline cannot rest
on what constructors do; it rests on the frames alone.

* `Parser.beside_of_runConstructor`: a constructor's run leaves everything below its caller's state
  alone, however it ends.
* `Parser.Built.below_eq`: building children changes the state below its own only by ending with a
  redirection, and then to the state that the redirection names.
* `Parser.Built.noAncestor_iff`: building children fails for want of an enclosing frame exactly when
  a redirection came up while the root was the only frame.
* `Parser.Reaches.depth_eq`: at every moment of a parse, whether or not it ever ends, there is one
  state for each open frame and one for the root.
-/

namespace FragmentParser

variable {C F S Y N : Type}

/-- What the states below the current one become when the building of children ends. -/
def Ending.below : Ending S → List S → List S
  | .redirected s, states => s :: states.tail
  | _, states => states

theorem Ending.below_of_forall_ne {ending : Ending S} (h : ∀ s, ending ≠ .redirected s)
    (states : List S) : ending.below states = states := by
  cases ending with
  | redirected s => exact absurd rfl (h s)
  | exhausted | stopped | failed | childFailed => rfl

/-- The step says that, with the root as the only frame, a rule came to a redirection. -/
def Step.RedirectsRoot (step : Step C F S Y) : Prop :=
  step.stack.depth = 1 ∧ ∃ s y t, step.event = .transition s y (.redirect t)

namespace Session

variable [DecidableEq S] [DecidableEq Y] [Diagnostic F] [Diagnostic S] [Diagnostic Y]
  {g : Grammar C F S Y} {d d' : Session C F S Y}

theorem Judged.within {v : Verdict C S} (h : d.Judged g v d') : d.Within d' := by
  cases h with
  | exhausted => exact (Within.peek d).trans (.record _ _)
  | unmatched => exact (Within.peek d).trans (.record _ _)
  | stopped => exact within_resolved ..
  | orphaned => exact within_resolved ..
  | construct => exact within_resolved ..
  | @redirected x xs y s old σ hd ht hσ =>
    refine (within_resolved d g x y (.redirect s)).trans ?_
    obtain ⟨hdepth, -⟩ := StateStack.depth_of_replaceCaller? hσ
    refine ⟨hdepth, ?_, [⟨σ, .callerReplaced old s⟩], rfl, fun step hstep ↦ ?_⟩
    · show σ.below.tail = d.stack.below.tail
      rw [StateStack.below_of_replaceCaller? hσ]
      rfl
    · rw [List.mem_singleton.1 hstep]
      exact Nat.le_of_eq hdepth.symm

theorem Judged.below_eq {ending : Ending S} (h : d.Judged g (.finish ending) d') :
    d'.stack.below = ending.below d.stack.below := by
  cases h with
  | exhausted => rfl
  | unmatched => rfl
  | stopped => rfl
  | orphaned => rfl
  | redirected _ _ hσ => exact StateStack.below_of_replaceCaller? hσ

/-- A verdict that ends the building fails for want of an enclosing frame exactly when it recorded a
redirection of the root, and then the stack is the one that was recorded. -/
theorem Judged.noAncestor_iff {ending : Ending S} (h : d.Judged g (.finish ending) d') :
    ∃ steps, Records d.stack.depth d d' steps ∧
      ((∃ state, ending = .failed (.noAncestor state)) ↔ ∃ step ∈ steps, step.RedirectsRoot) ∧
      ∀ step ∈ steps, step.RedirectsRoot → step.stack = d'.stack := by
  obtain ⟨steps, hsteps⟩ := h.within.records
  refine ⟨steps, hsteps, ?_⟩
  cases h with
  | exhausted =>
    obtain rfl := hsteps.eq_of_log [⟨d.stack, .exhausted⟩] rfl
    simp [Step.RedirectsRoot]
  | @unmatched x xs =>
    obtain rfl := hsteps.eq_of_log [⟨d.stack, .analyzed x (g.applicable d.state) none⟩] rfl
    simp [Step.RedirectsRoot]
  | @stopped x xs y =>
    obtain rfl := hsteps.eq_of_log [⟨d.stack, .transition d.state y .stop⟩,
      ⟨d.stack, .analyzed x (g.applicable d.state) (some y)⟩] rfl
    simp [Step.RedirectsRoot]
  | @redirected x xs y s old σ hd ht hσ =>
    obtain rfl := hsteps.eq_of_log [⟨σ, .callerReplaced old s⟩,
      ⟨d.stack, .transition d.state y (.redirect s)⟩,
      ⟨d.stack, .analyzed x (g.applicable d.state) (some y)⟩] rfl
    have hdepth : d.stack.depth ≠ 1 := fun h ↦ by
      rw [StateStack.replaceCaller?_eq_none_iff.2 h] at hσ
      cases hσ
    simp [Step.RedirectsRoot, hdepth]
  | @orphaned x xs y s hd ht hσ =>
    obtain rfl := hsteps.eq_of_log [⟨d.stack, .transition d.state y (.redirect s)⟩,
      ⟨d.stack, .analyzed x (g.applicable d.state) (some y)⟩] rfl
    have hdepth : d.stack.depth = 1 := StateStack.replaceCaller?_eq_none_iff.1 hσ
    simp [Step.RedirectsRoot, hdepth]

/-- Up to the return of a constructor that an iteration runs, no redirection of the root is
recorded: the iteration's own steps are others, and those of the run lie deeper. -/
theorem Judged.records_of_beside [Constructor C] {c : C} {s : Option S} {d₁ d₂ : Session C F S Y}
    (h : d.Judged g (.construct c s) d₁) (hrun : (d₁.share c s).Beside d₂) :
    ∃ steps, Records d.stack.depth d d₂ steps ∧ ∀ step ∈ steps, ¬step.RedirectsRoot := by
  obtain ⟨x, xs, y, -, -, rfl⟩ := h.exists_resolved
  have hshare := h.within.trans (within_share _ c s)
  obtain ⟨own, hown⟩ := hshare.records
  obtain ⟨inner, hinner⟩ := hrun.records
  rw [hshare.depth_eq] at hinner
  refine ⟨inner ++ own, hown.trans (hinner.mono (Nat.le_succ _)), fun step hstep hroot ↦ ?_⟩
  -- steps of the run lie above the frame, and the root is not; the others are known one by one
  rcases List.mem_append.1 hstep with hi | ho
  · have hdeep : d.stack.depth + 1 ≤ step.stack.depth := hinner.2 step hi
    have hone : step.stack.depth = 1 := hroot.1
    have hpos : 0 < d.stack.depth := Nat.succ_pos _
    omega
  · obtain ⟨-, t, y', t', he⟩ := hroot
    rcases (d.resolved g x y (.construct c s)).log_share c s with hlog | ⟨new, hlog⟩
    · obtain rfl := hown.eq_of_log [_, _] hlog
      simp only [List.mem_cons, List.not_mem_nil, or_false] at ho
      rcases ho with rfl | rfl <;> cases he
    · obtain rfl := hown.eq_of_log [_, _, _] hlog
      simp only [List.mem_cons, List.not_mem_nil, or_false] at ho
      rcases ho with rfl | rfl | rfl <;> cases he

end Session

namespace Recipe

variable {α : Type} [DecidableEq S] [DecidableEq Y]
  {g : Grammar C F S Y} {build : Session C F S Y → Harvest C F S Y N}
  {run : C → Option S → Session C F S Y → Reply C F S Y (Option N)}

/-- What all operations of recipes keep is kept by following one. -/
theorem invariant_of_follow {I : Session C F S Y → Prop} (hpeek : ∀ {d}, I d → I d.peek.2)
    (htake : ∀ {d}, I d → I d.take.2)
    (hrecord : ∀ {d parent}, I d → I (d.record (.children parent)))
    (hbuild : ∀ {d nodes ending d'}, build d = some (nodes, ending, d') → I d → I d')
    (hrun : ∀ {c s d outcome d'}, run c s d = some (outcome, d') → I d → I d')
    {r : Recipe C F S Y N α} {d d' : Session C F S Y} {outcome : Except ParseError α}
    (h : r.follow g build run d = some (outcome, d')) (hd : I d) : I d' := by
  induction r generalizing d with
  | done _ =>
    cases h
    exact hd
  | peek k ih =>
    rw [follow] at h
    exact ih _ h (hpeek hd)
  | take k ih =>
    rw [follow] at h
    exact ih _ h (htake hd)
  | inspect k ih =>
    rw [follow] at h
    exact ih _ _ h hd
  | children parent k ih =>
    rw [follow] at h
    split at h
    · cases h
    · next hb => exact ih _ _ h (hbuild hb (hrecord hd))
  | child c s k ih =>
    rw [follow] at h
    split at h
    · cases h
    · next hr => exact ih _ h (hrun hr hd)

/-- Following a recipe stays within the frame, if building children does and running constructors
restores what lies below. -/
theorem within_of_follow
    (hbuild : ∀ {d nodes ending d'}, build d = some (nodes, ending, d') → d.Within d')
    (hrun : ∀ {c s d outcome d'}, run c s d = some (outcome, d') → d.Beside d')
    {r : Recipe C F S Y N α} {d d' : Session C F S Y} {outcome : Except ParseError α}
    (h : r.follow g build run d = some (outcome, d')) : d.Within d' :=
  invariant_of_follow (fun hd ↦ hd.trans (.peek _)) (fun hd ↦ hd.trans (.take _))
    (fun hd ↦ hd.trans (.record _ _)) (fun hb hd ↦ hd.trans (hbuild hb))
    (fun hr hd ↦ hd.trans (hrun hr).within) h (.refl d)

end Recipe

namespace Parser

variable [DecidableEq S] [DecidableEq Y] [Constructor C]
  [Diagnostic F] [Diagnostic S] [Diagnostic Y]

section Building

variable {g : Grammar C F S Y} {run : C → Option S → Session C F S Y → Reply C F S Y (Option N)}
  (hrun : ∀ {c s d outcome d'}, run c s d = some (outcome, d') → d.Beside d')
  {d d' : Session C F S Y} {nodes : List N} {ending : Ending S}

include hrun

theorem Built.within (h : Built g run d nodes ending d') : d.Within d' := by
  induction h with
  | finish hj => exact hj.within
  | childFailed hj hr => exact (hj.within.trans (Session.within_share ..)).trans (hrun hr).within
  | stalled hj hr => exact (hj.within.trans (Session.within_share ..)).trans (hrun hr).within
  | next hj hr _ _ ih =>
    exact ((hj.within.trans (Session.within_share ..)).trans (hrun hr).within).trans ih

/-- Only the last iteration can write below the current state. -/
theorem Built.below_eq (h : Built g run d nodes ending d') :
    d'.stack.below = ending.below d.stack.below := by
  -- an iteration that runs a constructor writes the current state at most
  have hcall : ∀ {d d₁ d₂ : Session C F S Y} {c s outcome},
      d.Judged g (.construct c s) d₁ → run c s (d₁.share c s) = some (outcome, d₂) →
        d₂.stack.below = d.stack.below := by
    intro d d₁ d₂ c s outcome hj hr
    obtain ⟨x, xs, y, -, -, rfl⟩ := hj.exists_resolved
    rw [(hrun hr).below_eq, Session.stack_share, StateStack.below_share]
    rfl
  induction h with
  | finish hj => exact hj.below_eq
  | childFailed hj hr => exact hcall hj hr
  | stalled hj hr => exact hcall hj hr
  | next hj hr _ _ ih => rw [ih, hcall hj hr]

/-- Of all the steps meanwhile only the last can redirect the root, and it does exactly if the
building fails for want of an enclosing frame. -/
theorem Built.noAncestor_iff (h : Built g run d nodes ending d') :
    ∃ steps, Session.Records d.stack.depth d d' steps ∧
      ((∃ state, ending = .failed (.noAncestor state)) ↔ ∃ step ∈ steps, step.RedirectsRoot) ∧
      ∀ step ∈ steps, step.RedirectsRoot → step.stack = d'.stack := by
  induction h with
  | finish hj => exact hj.noAncestor_iff
  | childFailed hj hr =>
    obtain ⟨steps, hsteps, hnone⟩ := hj.records_of_beside (hrun hr)
    exact ⟨steps, hsteps, by simpa using hnone, fun step hs hroot ↦ absurd hroot (hnone step hs)⟩
  | stalled hj hr =>
    obtain ⟨steps, hsteps, hnone⟩ := hj.records_of_beside (hrun hr)
    exact ⟨steps, hsteps, by simpa using hnone, fun step hs hroot ↦ absurd hroot (hnone step hs)⟩
  | next hj hr _ _ ih =>
    obtain ⟨earlier, hearlier, hnone⟩ := hj.records_of_beside (hrun hr)
    obtain ⟨later, hlater, hiff, hstack⟩ := ih
    -- nothing in this iteration redirects the root, so it is up to the later ones
    rw [((hj.within.trans (Session.within_share ..)).trans (hrun hr).within).depth_eq] at hlater
    refine ⟨later ++ earlier, hearlier.trans hlater, ?_, fun step hs hroot ↦ ?_⟩
    · rw [hiff]
      constructor
      · rintro ⟨step, hs, hroot⟩
        exact ⟨step, List.mem_append_left _ hs, hroot⟩
      · rintro ⟨step, hs, hroot⟩
        rcases List.mem_append.1 hs with hl | he
        · exact ⟨step, hl, hroot⟩
        · exact absurd hroot (hnone step he)
    · rcases List.mem_append.1 hs with hl | he
      · exact hstack step hl hroot
      · exact absurd hroot (hnone step he)

end Building

/-- Whatever a constructor's recipe is and however it ends, its run leaves all below its caller's
state as it was. -/
theorem beside_of_runConstructor {p : Parser C F S Y N} {bound : Nat} {c : C} {s : Option S}
    {d d' : Session C F S Y} {outcome : Except ParseError (Option N)}
    (h : p.runConstructor bound c s d = some (outcome, d')) : d.Beside d' := by
  induction bound generalizing c s d d' outcome with
  | zero => cases h
  | succ bound ih =>
    obtain ⟨e, hf, rfl⟩ := exists_follow_of_runConstructor h
    exact (Recipe.within_of_follow (fun hb ↦ (built_of_buildChildren hb).within ih) ih hf).closeFrame

/-! ### Reachable sessions -/

/-- What a parse is about at some moment. -/
inductive Moment (C F S Y N : Type) where
  /-- A constructor is to go on with this recipe. -/
  | following (r : Recipe C F S Y N (Option N))
  /-- An iteration of the building of children begins. -/
  | building
  /-- The head fragment has been judged. -/
  | judged (verdict : Verdict C S)
  /-- A constructor is about to be run. -/
  | calling (c : C) (s : Option S)
  /-- A constructor's run is over. -/
  | returned (outcome : Except ParseError (Option N))

/-- The sessions that a parse passes through, with the number of frames open above the root. A run
that is over counts with what it did as a whole, one that goes on with all it has done so far, so
that the moments of parses without an end are among them. -/
inductive Reaches (p : Parser C F S Y N) (reader : Lookahead F) :
    Nat → Moment C F S Y N → Session C F S Y → Prop where
  | root : p.Reaches reader 0 (.following (p.recipe p.grammar.initialConstructor))
      (.start reader p.grammar.initialState)
  | peek {n k d} : p.Reaches reader n (.following (.peek k)) d →
      p.Reaches reader n (.following (k d.peek.1)) d.peek.2
  | take {n k d} : p.Reaches reader n (.following (.take k)) d →
      p.Reaches reader n (.following (k d.take.1)) d.take.2
  | inspect {n k d} : p.Reaches reader n (.following (.inspect k)) d →
      p.Reaches reader n (.following (k d.stack p.grammar.view)) d
  | build {n parent k d} : p.Reaches reader n (.following (.children parent k)) d →
      p.Reaches reader n .building (d.record (.children parent))
  | judge {n d} : p.Reaches reader n .building d →
      p.Reaches reader n (.judged (d.judge p.grammar).1) (d.judge p.grammar).2
  | call {n c s d} : p.Reaches reader n (.judged (.construct c s)) d →
      p.Reaches reader n (.calling c s) (d.share c s)
  | again {n c s d bound node d'} : p.Reaches reader n (.judged (.construct c s)) d →
      p.runConstructor bound c s (d.share c s) = some (.ok node, d') →
      ¬(d'.taken = d.taken ∧ d'.state = d.state) → p.Reaches reader n .building d'
  | built {n parent k d bound bound' nodes ending d'} :
      p.Reaches reader n (.following (.children parent k)) d →
      buildChildren p.grammar (p.runConstructor bound) bound' (d.record (.children parent)) =
        some (nodes, ending, d') →
      p.Reaches reader n (.following (k nodes ending.outcome)) d'
  | child {n c s k d} : p.Reaches reader n (.following (.child c s k)) d →
      p.Reaches reader n (.calling c s) d
  | enter {n c s d} : p.Reaches reader n (.calling c s) d →
      p.Reaches reader (n + 1) (.following (p.recipe c)) (d.openFrame s)
  | leave {n c s d bound outcome d'} : p.Reaches reader n (.calling c s) d →
      p.runConstructor bound c s d = some (outcome, d') →
      p.Reaches reader n (.returned outcome) d'
  | resume {n c s k d bound outcome d'} : p.Reaches reader n (.following (.child c s k)) d →
      p.runConstructor bound c s d = some (outcome, d') →
      p.Reaches reader n (.following (k outcome)) d'

/-- There is one state for each open frame and one for the root. -/
theorem Reaches.depth_eq {p : Parser C F S Y N} {reader : Lookahead F} {n : Nat}
    {m : Moment C F S Y N} {d : Session C F S Y} (h : p.Reaches reader n m d) :
    d.stack.depth = n + 1 := by
  induction h with
  | root => rfl
  | peek _ ih => exact ih
  | take _ ih => rw [Session.stack_take, ih]
  | inspect _ ih => exact ih
  | build _ ih => exact ih
  | judge _ ih => rw [(Session.judged _ _).within.depth_eq, ih]
  | call _ ih => rw [Session.stack_share, StateStack.depth_share, ih]
  | again _ hr _ ih =>
    rw [(beside_of_runConstructor hr).depth_eq, Session.stack_share, StateStack.depth_share, ih]
  | built _ hb ih =>
    rw [((built_of_buildChildren hb).within beside_of_runConstructor).depth_eq,
      Session.stack_record, ih]
  | child _ ih => exact ih
  | enter _ ih => rw [Session.stack_openFrame, StateStack.depth_push, ih]
  | leave _ hr ih => rw [(beside_of_runConstructor hr).depth_eq, ih]
  | resume _ hr ih => rw [(beside_of_runConstructor hr).depth_eq, ih]

/-- A recipe that is followed to its end gets there. -/
theorem Reaches.follow {p : Parser C F S Y N} {reader : Lookahead F} {n bound : Nat}
    {r : Recipe C F S Y N (Option N)} {d d' : Session C F S Y}
    (h : p.Reaches reader n (.following r) d) {outcome : Except ParseError (Option N)}
    (hf : r.follow p.grammar (buildChildren p.grammar (p.runConstructor bound) bound)
      (p.runConstructor bound) d = some (outcome, d')) :
    p.Reaches reader n (.following (.done outcome)) d' := by
  induction r generalizing d with
  | done _ =>
    cases hf
    exact h
  | peek k ih => exact ih _ h.peek hf
  | take k ih => exact ih _ h.take hf
  | inspect k ih => exact ih _ _ h.inspect hf
  | children parent k ih =>
    rw [Recipe.follow] at hf
    split at hf
    · cases hf
    · next hb => exact ih _ _ (h.built hb) hf
  | child c s k ih =>
    rw [Recipe.follow] at hf
    split at hf
    · cases hf
    · next hr => exact ih _ (h.resume hr) hf

/-- A parse that ends does so at one of its moments. -/
theorem exists_reaches_of_run {p : Parser C F S Y N} {reader : Lookahead F} {bound : Nat}
    {outcome : Except ParseError N} {d : Session C F S Y}
    (h : p.run bound reader = some (outcome, d)) :
    ∃ outcome', p.Reaches reader 0 (.following (.done outcome')) d := by
  obtain ⟨outcome', hf, -⟩ := exists_follow_of_run h
  exact ⟨outcome', Reaches.root.follow hf⟩

/-- A whole parse follows the recipe of the initial constructor in the root frame. -/
theorem within_of_run {p : Parser C F S Y N} {bound : Nat} {reader : Lookahead F}
    {outcome : Except ParseError N} {d : Session C F S Y}
    (h : p.run bound reader = some (outcome, d)) :
    (Session.start reader p.grammar.initialState : Session C F S Y).Within d := by
  obtain ⟨outcome', hf, -⟩ := exists_follow_of_run h
  exact Recipe.within_of_follow
    (fun hb ↦ (built_of_buildChildren hb).within beside_of_runConstructor)
    beside_of_runConstructor hf

/-- **The stack discipline.** A constructor's run keeps the length of the stack and all below its
caller's state. Building children keeps the length and all below the two innermost states, and the
second of these changes just by a redirection, to the state that it names. It fails for want of an
enclosing frame exactly if a redirection of the root was recorded, and leaves the stack as it was
then. So at every moment the stack has one state for each open frame and one for the root, and the
latter alone is left in the end. -/
theorem stack_discipline (p : Parser C F S Y N) :
    (∀ {bound c s d outcome d'}, p.runConstructor bound c s d = some (outcome, d') →
      d'.stack.depth = d.stack.depth ∧ d'.stack.below = d.stack.below) ∧
    (∀ {bound bound' d nodes ending d'},
      buildChildren p.grammar (p.runConstructor bound) bound' d = some (nodes, ending, d') →
      d'.stack.depth = d.stack.depth ∧ d'.stack.below.tail = d.stack.below.tail ∧
      (∀ s, ending = .redirected s → d'.stack.below.head? = some s) ∧
      ((∀ s, ending ≠ .redirected s) → d'.stack.below = d.stack.below) ∧
      ∃ steps, d'.log = steps ++ d.log ∧
        ((∃ state, ending = .failed (.noAncestor state)) ↔ ∃ step ∈ steps, step.RedirectsRoot) ∧
        ∀ step ∈ steps, step.RedirectsRoot → d'.stack = step.stack) ∧
    (∀ {reader n m d}, p.Reaches reader n m d → d.stack.toList.length = n + 1) ∧
    ∀ {bound reader outcome d}, p.run bound reader = some (outcome, d) →
      d.stack.toList.length = 1 := by
  refine ⟨fun h ↦ ?_, fun h ↦ ?_, fun h ↦ ?_, fun h ↦ ?_⟩
  · exact ⟨(beside_of_runConstructor h).depth_eq, (beside_of_runConstructor h).below_eq⟩
  · have hb := built_of_buildChildren h
    have hbelow := hb.below_eq beside_of_runConstructor
    obtain ⟨steps, hsteps, hiff, hstack⟩ := hb.noAncestor_iff beside_of_runConstructor
    refine ⟨(hb.within beside_of_runConstructor).depth_eq,
      (hb.within beside_of_runConstructor).tail_eq, ?_, fun hne ↦ ?_, steps, hsteps.1, hiff,
      fun step hs hroot ↦ (hstack step hs hroot).symm⟩
    · rintro s rfl
      rw [hbelow]
      rfl
    · rw [hbelow, Ending.below_of_forall_ne hne]
  · rw [StateStack.length_toList, h.depth_eq]
  · rw [StateStack.length_toList, (within_of_run h).depth_eq]
    rfl

end Parser

end FragmentParser
