import FragmentParser.Blueprint
import FragmentParser.Proofs.Configuration
import Mathlib.Logic.Relation

/-!
# Stalled iterations

An iteration of the building of children **stalls** when the constructor that it runs takes no
fragment and leaves the current state as it was. The check compares a count and one state. That
nothing else has changed either follows from the frame law, by which a constructor leaves the states
below its caller's alone, and from the fact that fragments are taken from the front, so that those
to come are the same if none was taken (`Parser.Iteration.alike_iff`).

So the next iteration would be the same again, and the one after it. The check cuts no parse off
that would come to an end without it, and changes the outcome of none
(`Parser.run_of_runWith_false`).
-/

namespace FragmentParser

variable {C F S Y N : Type} [DecidableEq S] [DecidableEq Y] [Constructor C] [Diagnostic F]
  [Diagnostic S] [Diagnostic Y]

namespace Parser

variable {p : Parser C F S Y N}

/-! ### Iterations -/

/-- An iteration of the building of children that recognizes `x` as `y`, and runs constructor `c` in
state `s`, which returns `node`. -/
structure Iteration (p : Parser C F S Y N) (bound : Nat) (x : F) (y : Y) (c : C) (s : Option S)
    (node : Option N) (d d' : Session C F S Y) : Prop where
  /-- The head fragment. -/
  head : d.rest.head? = some x
  /-- Its symbol, and what the rule for it comes to. -/
  transition : p.grammar.transition? d.stack x = some (y, .construct c s)
  /-- The run of the constructor. -/
  run : p.runConstructor bound c s ((d.resolved p.grammar x y (.construct c s)).share c s) =
    some (.ok node, d')

/-- An iteration from `d` that another one follows, which begins with `d'`. -/
def GoesOn (p : Parser C F S Y N) (d d' : Session C F S Y) : Prop :=
  (∃ bound x y c s node, p.Iteration bound x y c s node d d') ∧
    ¬(d'.taken = d.taken ∧ d'.state = d.state)

namespace Iteration

variable {bound : Nat} {x : F} {y : Y} {c : C} {s : Option S} {node : Option N}
  {d d' : Session C F S Y}

theorem judged (h : p.Iteration bound x y c s node d d') :
    d.Judged p.grammar (.construct c s) (d.resolved p.grammar x y (.construct c s)) := by
  obtain ⟨xs, hd⟩ := List.head?_eq_some_iff.1 h.head
  exact .construct hd h.transition

theorem of_judged {d₁ : Session C F S Y} (hj : d.Judged p.grammar (.construct c s) d₁)
    (hr : p.runConstructor bound c s (d₁.share c s) = some (.ok node, d')) :
    ∃ x y, p.Iteration bound x y c s node d d' ∧ d₁ = d.resolved p.grammar x y (.construct c s) := by
  obtain ⟨x, xs, y, hd, ht, rfl⟩ := hj.exists_resolved
  exact ⟨x, y, ⟨by rw [hd]; rfl, ht, hr⟩, rfl⟩

theorem advances (h : p.Iteration bound x y c s node d d') : d.Advances d' :=
  (h.judged.advances.trans (.share ..)).trans (advances_of_runConstructor h.run)

/-- An iteration leaves the states of the enclosing frames alone. -/
theorem below_eq (h : p.Iteration bound x y c s node d d') : d'.stack.below = d.stack.below := by
  rw [(beside_of_runConstructor h.run).below_eq, Session.stack_share, StateStack.below_share,
    Session.stack_resolved]

/-- **What the check compares is enough.** If it finds the count and the state unchanged, the whole
stack and the fragments to come are. -/
theorem alike_iff (h : p.Iteration bound x y c s node d d') :
    d'.Alike d ↔ d'.taken = d.taken ∧ d'.state = d.state := by
  constructor
  · intro ha
    exact ⟨h.advances.rest_eq_iff.1 ha.rest_eq, ha.state_eq⟩
  · rintro ⟨htaken, hstate⟩
    exact ⟨congrArg₂ StateStack.mk hstate h.below_eq, h.advances.rest_eq_iff.2 htaken⟩

/-- From a session that is in step, the same iteration is made in step. -/
theorem exists_inStep (h : p.Iteration bound x y c s node d d') {d₀ e₀ e : Session C F S Y}
    (hde : d₀.InStep e₀ d e) :
    ∃ e', p.Iteration bound x y c s node e e' ∧ d₀.InStep e₀ d' e' := by
  obtain ⟨e', hr, hde'⟩ := exists_runConstructor_of_inStep h.run ((hde.resolved ..).share c s)
  exact ⟨e', ⟨hde.alike.rest_eq ▸ h.head, hde.alike.stack_eq ▸ h.transition, hr⟩, hde'⟩

end Iteration

theorem goesOn_iff {d d' : Session C F S Y} : p.GoesOn d d' ↔
    (∃ bound x y c s node, p.Iteration bound x y c s node d d') ∧ ¬d'.Alike d := by
  refine and_congr_right fun ⟨bound, x, y, c, s, node, h⟩ ↦ ?_
  rw [h.alike_iff]

/-- The last iteration of a building that ends as stalled. -/
theorem Built.exists_iteration {bound : Nat} {d d' : Session C F S Y} {nodes : List N}
    {name state : String}
    (h : Built p.grammar (p.runConstructor bound) d nodes (.failed (.stalled name state)) d') :
    ∃ d₀ x y c s node, Relation.ReflTransGen p.GoesOn d d₀ ∧
      p.Iteration bound x y c s node d₀ d' ∧ d'.Alike d₀ ∧ name = Constructor.name c ∧
        state = text d₀.state := by
  generalize hending : Ending.failed (.stalled name state) = ending at h
  induction h with
  | finish hj =>
    -- no verdict is that an iteration stalls
    subst hending
    cases hj
  | childFailed => cases hending
  | @stalled d d₁ d' c s node hj hr htaken hstate =>
    cases hending
    obtain ⟨x, y, hi, rfl⟩ := Iteration.of_judged hj hr
    exact ⟨d, x, y, c, s, node, .refl, hi, hi.alike_iff.2 ⟨htaken, hstate⟩, rfl, rfl⟩
  | @next d d₁ d₂ d' c s node nodes ending hj hr hgoes _ ih =>
    obtain ⟨x, y, hi, rfl⟩ := Iteration.of_judged hj hr
    obtain ⟨d₀, x', y', c', s', node', hreach, hlast⟩ := ih hending
    exact ⟨d₀, x', y', c', s', node', .head ⟨⟨bound, x, y, c, s, node, hi⟩, hgoes⟩ hreach, hlast⟩

/-! ### Without the check -/

/-- Without the check, a building whose iteration comes back to where it began has no outcome. -/
theorem buildWith_false_eq_none {bound : Nat} {d d₁ e : Session C F S Y} {c : C} {s : Option S}
    (hj : d.Judged p.grammar (.construct c s) d₁)
    (hback : ∀ {outcome d'}, p.constructWith false bound c s (d₁.share c s) = some (outcome, d') →
      ∃ node, outcome = .ok node ∧ d'.Alike d)
    (he : e.Alike d) (n : Nat) :
    buildWith false p.grammar (p.constructWith false bound) n e = none := by
  induction n generalizing e with
  | zero => rfl
  | succ n ih =>
    obtain ⟨e₁, hj', hde⟩ := hj.exists_inStep he.symm.inStep
    rw [buildWith, hj'.judge_eq]
    simp only [Bool.false_eq_true, false_and, if_false]
    rcases hr : p.constructWith false bound c s (e₁.share c s) with _ | ⟨outcome, e₂⟩
    · rfl
    · -- the run from `d` is in step with this one
      obtain ⟨d₂, hr', hde'⟩ :=
        exists_constructWith_of_inStep hr (hde.share c s).alike.symm.inStep
      obtain ⟨node, rfl, hd₂⟩ := hback hr'
      simp only [ih (hde'.alike.trans hd₂)]

/-- What a building without the check comes to, it comes to with the check. -/
theorem buildChildren_of_buildWith_false {bound : Nat}
    (ih : ∀ {c s d answer}, p.constructWith false bound c s d = some answer →
      p.runConstructor bound c s d = some answer)
    {n : Nat} {d : Session C F S Y} {answer : List N × Ending S × Session C F S Y}
    (h : buildWith false p.grammar (p.constructWith false bound) n d = some answer) :
    buildChildren p.grammar (p.runConstructor bound) n d = some answer := by
  induction n generalizing d answer with
  | zero => cases h
  | succ n ihn =>
    rw [buildWith] at h
    rw [buildChildren]
    have hj := d.judged p.grammar
    generalize d.judge p.grammar = verdict at h hj ⊢
    obtain ⟨_ | ⟨c, s⟩, d₁⟩ := verdict
    · exact h
    · simp only [Bool.false_eq_true, false_and, if_false] at h ⊢
      rcases hr : p.constructWith false bound c s (d₁.share c s) with _ | ⟨e | node, d'⟩
      · simp [hr] at h
      · simpa only [hr, ih hr] using h
      · simp only [hr] at h
        simp only [ih hr]
        rcases hb : buildWith false p.grammar (p.constructWith false bound) n d' with _ | later
        · simp [hb] at h
        · -- the check fails, since after a stalled iteration there would be no outcome
          have hgoes : ¬(d'.taken = d₁.taken ∧ d'.state = d₁.state) := by
            intro hstall
            obtain ⟨x, y, hi, rfl⟩ := Iteration.of_judged hj (ih hr)
            have hback : d'.Alike d := hi.alike_iff.2 hstall
            have hnone : buildWith false p.grammar (p.constructWith false bound) n d' = none := by
              refine buildWith_false_eq_none hj ?_ hback n
              intro outcome d'' hr'
              obtain ⟨rfl, rfl⟩ := Prod.mk.inj (Option.some.inj (hr.symm.trans hr'))
              exact ⟨node, rfl, hback⟩
            rw [hb] at hnone
            cases hnone
          rw [if_neg hgoes, ihn hb]
          simpa only [hb] using h

theorem runConstructor_of_constructWith_false {bound : Nat} {c : C} {s : Option S}
    {d : Session C F S Y} {answer : Except ParseError (Option N) × Session C F S Y}
    (h : p.constructWith false bound c s d = some answer) :
    p.runConstructor bound c s d = some answer := by
  induction bound generalizing c s d answer with
  | zero => cases h
  | succ bound ih =>
    rw [constructWith] at h
    rw [runConstructor]
    split at h
    · cases h
    · next hf =>
      rw [Recipe.follow_of_extends (buildChildren_of_buildWith_false ih) ih hf]
      exact h

/-- **The check cuts no parse off.** What a parse without the check comes to, it comes to with the
check. -/
theorem run_of_runWith_false {bound : Nat} {reader : Lookahead F}
    {answer : Except ParseError N × Session C F S Y} (h : p.runWith false bound reader = some answer) :
    p.run bound reader = some answer := by
  simp only [runWith, run] at h ⊢
  rcases hf : (p.recipe p.grammar.initialConstructor).follow p.grammar
      (buildWith false p.grammar (p.constructWith false bound) bound) (p.constructWith false bound)
      (Session.start reader p.grammar.initialState) with _ | followed
  · simp [hf] at h
  · rw [Recipe.follow_of_extends
      (buildChildren_of_buildWith_false runConstructor_of_constructWith_false)
      runConstructor_of_constructWith_false hf]
    rw [hf] at h
    exact h

/-- **A stalled parse would repeat itself forever.** When the building of children fails as stalled,
the states and the fragments to come are all the same as at the beginning of its last iteration.
From any session with these states and fragments an iteration recognizes the same symbol, comes to
the same transition, and runs the same constructor, which returns the same node, takes no fragment
and leaves such a session again; without the check the building would have no outcome. And a parse
that has an outcome without the check has the same outcome with it. -/
theorem stalled_repeats (p : Parser C F S Y N) :
    (∀ {bound n d nodes name state d'}, buildChildren p.grammar (p.runConstructor bound) n d =
        some (nodes, .failed (.stalled name state), d') →
      ∃ d₀ x y c s node, Relation.ReflTransGen p.GoesOn d d₀ ∧
        p.Iteration bound x y c s node d₀ d' ∧ name = Constructor.name c ∧ state = text d₀.state ∧
        d'.stack = d₀.stack ∧ d'.rest = d₀.rest ∧
        ∀ e, e.stack = d₀.stack → e.rest = d₀.rest →
          (∃ e', p.Iteration bound x y c s node e e' ∧
            e'.stack = e.stack ∧ e'.rest = e.rest ∧ e'.taken = e.taken) ∧
          ∀ bound n, buildWith false p.grammar (p.constructWith false bound) n e = none) ∧
    ∀ {bound reader answer}, p.runWith false bound reader = some answer →
      p.run bound reader = some answer := by
  refine ⟨?_, run_of_runWith_false⟩
  intro bound n d nodes name state d' h
  obtain ⟨d₀, x, y, c, s, node, hreach, hi, hback, hname, hstate⟩ :=
    (built_of_buildChildren h).exists_iteration
  refine ⟨d₀, x, y, c, s, node, hreach, hi, hname, hstate, hback.stack_eq, hback.rest_eq, ?_⟩
  intro e hstack hrest
  have he : e.Alike d₀ := ⟨hstack, hrest⟩
  refine ⟨?_, fun bound' n ↦ ?_⟩
  · obtain ⟨e', hi', hde⟩ := hi.exists_inStep he.symm.inStep
    have hback' : e'.Alike e := (hde.alike.symm.trans hback).trans he.symm
    exact ⟨e', hi', hback'.stack_eq, hback'.rest_eq, (hi'.alike_iff.1 hback').1⟩
  · refine buildWith_false_eq_none hi.judged ?_ he n
    intro outcome d'' hr
    -- with whatever bound, the constructor returns what it returned
    have hr' := runConstructor_of_le (Nat.le_max_left bound' bound)
      (runConstructor_of_constructWith_false hr)
    rw [runConstructor_of_le (Nat.le_max_right bound' bound) hi.run] at hr'
    obtain ⟨rfl, rfl⟩ := Prod.mk.inj (Option.some.inj hr')
    exact ⟨node, rfl, hback⟩

/-- A parse whose root stalls at once. -/
example : ∃ p, ({ recognizers := [(⟨"Word"⟩, .any)]
                  rules := [([⟨"Top"⟩], ⟨"Word"⟩, .inl (.child ⟨"idle", .shared⟩))]
                  initial := [(⟨"Top"⟩, ⟨"root", .own⟩)]
                  plans := [⟨⟨"root", .own⟩, "root", [.children], true⟩,
                    ⟨⟨"idle", .shared⟩, "idle", [], false⟩] } : Blueprint).parser? = .ok p ∧
      (p.run 2 (.ofList ["a"])).map Prod.fst = some (.error (.stalled "idle" "Top")) :=
  ⟨_, rfl, rfl⟩

end Parser

end FragmentParser
