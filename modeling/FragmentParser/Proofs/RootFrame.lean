import FragmentParser.Proofs.Advance
import FragmentParser.Proofs.Simulation

/-!
# The frame of the root

How a parse that succeeds has ended. A frame ends because a rule stops it, or because there are no
fragments any more. With the root nothing would be left to go on with the fragments that are still
to come, so a table should keep it in states that **only the end of the input ends**
(`Grammar.RootStates`): no rule stops there, and shared frames and redirections lead to such states
again. Then a parse that succeeds has taken all fragments, and its last step says so, with the root
alone in one of these states (`Design.Describes.exhausted_of_run`).

Two facts about all activities are behind this. Fragments are taken from the front and counted
(`Session.Advances`). And the run of a constructor leaves the state of its caller as it was, unless
a redirection puts the caller into another one (`Parser.state_of_runConstructor`).
-/

namespace FragmentParser

variable {C F S Y E N : Type}

/-- Only the end of the input ends a frame in one of these states, and the root is in one of them.
-/
structure Grammar.RootStates [DecidableEq S] [DecidableEq Y] [Constructor C] (g : Grammar C F S Y)
    (P : S → Prop) : Prop where
  /-- The root begins in such a state. -/
  initial : P g.initialState
  /-- A constructor that shares the frame leads to such a state. -/
  share : ∀ {σ x y c s}, P σ.top → g.transition? σ x = some (y, .construct c (some s)) →
    Constructor.frame c = .shared → P s
  /-- No rule stops there. -/
  stop : ∀ {σ x y}, P σ.top → g.transition? σ x ≠ some (y, .stop)
  /-- All redirections lead to such states. -/
  redirect : ∀ {σ x y s}, g.transition? σ x = some (y, .redirect s) → P s

namespace Parser

variable [DecidableEq S] [DecidableEq Y] [Constructor C] [Diagnostic F] [Diagnostic S]
  [Diagnostic Y]

section Building

variable {g : Grammar C F S Y} {run : C → Option S → Session C F S Y → Reply C F S Y (Option N)}
  {d d' : Session C F S Y} {nodes : List N} {ending : Ending S}

/-- A redirection comes from the table. -/
theorem Built.exists_redirect {s : S} (h : Built g run d nodes (.redirected s) d') :
    ∃ σ x y, g.transition? σ x = some (y, .redirect s) := by
  generalize hending : Ending.redirected s = ending at h
  induction h with
  | finish hj =>
    subst hending
    cases hj with
    | redirected _ ht => exact ⟨_, _, _, ht⟩
  | childFailed => cases hending
  | stalled => cases hending
  | next _ _ _ _ ih => exact ih hending

end Building

variable {p : Parser C F S Y N} {bound : Nat} {c : C} {s : Option S} {d d' : Session C F S Y}
  {outcome : Except ParseError (Option N)}

/-- The run of a constructor keeps the caller in the states that redirections lead to, if it was in
one of them. -/
theorem state_of_runConstructor {P : S → Prop}
    (hP : ∀ {σ x y s}, p.grammar.transition? σ x = some (y, .redirect s) → P s)
    (h : p.runConstructor bound c s d = some (outcome, d')) (hd : P d.state) : P d'.state := by
  -- inside the frame that the run opens the caller is the nearest of the frames below
  let I : Session C F S Y → Prop := fun e ↦ ∃ b rest, e.stack.below = b :: rest ∧ P b
  cases bound with
  | zero => cases h
  | succ bound =>
    obtain ⟨e, hf, rfl⟩ := exists_follow_of_runConstructor h
    have htake : ∀ {e}, I e → I e.take.2 := by
      rintro e ⟨b, rest, hbelow, hb⟩
      exact ⟨b, rest, by rw [Session.stack_take, hbelow], hb⟩
    have hbuild : ∀ {e nodes ending e'}, buildChildren p.grammar (p.runConstructor bound) bound e =
        some (nodes, ending, e') → I e → I e' := by
      rintro e nodes ending e' hbuild ⟨b, rest, hbelow, hb⟩
      have hbuilt := built_of_buildChildren hbuild
      have heq := hbuilt.below_eq beside_of_runConstructor
      rw [hbelow] at heq
      cases ending with
      | redirected s =>
        obtain ⟨σ, x, y, ht⟩ := hbuilt.exists_redirect
        exact ⟨s, rest, heq, hP ht⟩
      | exhausted | stopped | failed | childFailed => exact ⟨b, rest, heq, hb⟩
    have hrun : ∀ {c s e outcome e'}, p.runConstructor bound c s e = some (outcome, e') →
        I e → I e' := by
      rintro c s e outcome e' hr ⟨b, rest, hbelow, hb⟩
      exact ⟨b, rest, by rw [(beside_of_runConstructor hr).below_eq, hbelow], hb⟩
    obtain ⟨b, rest, hbelow, hb⟩ : I e :=
      Recipe.invariant_of_follow (fun he ↦ he) htake (fun he ↦ he) hbuild hrun hf
        ⟨d.state, d.stack.below, rfl, hd⟩
    have hpop : e.stack.pop = ⟨b, rest⟩ := by
      rw [StateStack.pop, hbelow]
    show P e.stack.pop.top
    rw [hpop]
    exact hb

/-- At the root children are built to the end of the input, if nothing fails. -/
theorem Built.exhausted {P : S → Prop} (hP : p.grammar.RootStates P) {nodes : List N}
    {ending : Ending S} (h : Built p.grammar (p.runConstructor bound) d nodes ending d')
    (hroot : d.stack.below = []) (hd : P d.state) (hok : ending.outcome = .ok ()) :
    d'.rest = [] ∧ ∃ s, P s ∧ d'.stack = .root s ∧ d'.log.head? = some ⟨.root s, .exhausted⟩ := by
  induction h with
  | @finish d d' ending hj =>
    have hstack : d.stack = .root d.state := by
      rw [StateStack.root, ← hroot]
      rfl
    cases hj with
    | exhausted hrest =>
      refine ⟨by rw [Session.rest_record, Session.rest_peek, hrest], d.state, hd, hstack, ?_⟩
      rw [← hstack]
      rfl
    | unmatched => cases hok
    | stopped _ ht => exact absurd ht (hP.stop hd)
    | @redirected x xs y s old σ _ _ hσ =>
      rw [hstack] at hσ
      cases hσ
    | orphaned => cases hok
  | childFailed => cases hok
  | stalled => cases hok
  | @next d d₁ d₂ d' c s node nodes ending hj hr _ _ ih =>
    obtain ⟨x, xs, y, -, ht, rfl⟩ := hj.exists_resolved
    have hstate : P ((d.resolved p.grammar x y (.construct c s)).share c s).state := by
      rcases hframe : Constructor.frame c with _ | _ <;> rcases s with _ | s <;>
        rw [Session.state, Session.stack_share, hframe]
      · exact hd
      · exact hP.share hd ht hframe
      · exact hd
      · exact hd
    have hbelow : d₂.stack.below = [] := by
      rw [(beside_of_runConstructor hr).below_eq, Session.stack_share, StateStack.below_share]
      exact hroot
    exact ih hbelow (state_of_runConstructor hP.redirect hr hstate) hok

end Parser

/-- **A parse that succeeds comes to the end of the input**, if only that ends the root: all
fragments are taken, and the last step records the end with the root alone in one of its states. -/
theorem Design.Describes.exhausted_of_run [DecidableEq S] [DecidableEq Y] [Constructor C]
    [Diagnostic F] [Diagnostic S] [Diagnostic Y] {design : Design C F S E N} {p : Parser C F S Y N}
    (h : design.Describes p) {P : S → Prop} (hP : p.grammar.RootStates P) {bound : Nat}
    {reader : Lookahead F} {node : N} {d : Session C F S Y}
    (hr : p.run bound reader = some (.ok node, d)) :
    d.rest = [] ∧ d.taken = reader.toList.length ∧
      ∃ s, P s ∧ d.stack = .root s ∧ d.log.head? = some ⟨.root s, .exhausted⟩ := by
  obtain ⟨e, hroot⟩ := h.initial
  obtain ⟨nodes, ending, hbuilt, hended⟩ := h.exists_built_of_run hroot hr
  have hcount : d.count = reader.toList.length := by
    rw [(hbuilt.advances Parser.advances_of_runConstructor).count_eq, Session.count_record,
      Session.count_start]
  have hok : ending.outcome = .ok () := by
    rcases houtcome : ending.outcome with _ | _
    · rw [houtcome] at hended
      cases hended
    · rfl
  obtain ⟨hrest, hstep⟩ := hbuilt.exhausted hP rfl hP.initial hok
  refine ⟨hrest, ?_, hstep⟩
  rw [Session.count, hrest] at hcount
  exact hcount

end FragmentParser
