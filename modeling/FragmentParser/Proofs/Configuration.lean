import FragmentParser.Proofs.Correspondence

/-!
# What a parse goes by

Besides the state stack and the fragments to come nothing matters to the activities of a parse. How
the reader keeps the fragments, how many were taken before, and what has been recorded makes no
difference. Sessions that agree in the stack and the fragments are `Session.Alike`, and what one
activity does from the one it does from the other, **in step** with it: the outcomes are the same,
as many fragments are taken, and the same steps are recorded (`Session.InStep`).
-/

namespace FragmentParser

variable {C F S Y N : Type}

namespace Session

/-- The sessions have the same states and the same fragments to come. -/
structure Alike (d e : Session C F S Y) : Prop where
  /-- The states are the same. -/
  stack_eq : d.stack = e.stack
  /-- The fragments to come are the same. -/
  rest_eq : d.rest = e.rest

/-- From `d₀` and `e₀` the sessions `d` and `e` are reached in the same way. -/
structure InStep (d₀ e₀ d e : Session C F S Y) : Prop where
  /-- The sessions are alike. -/
  alike : d.Alike e
  /-- As many fragments have been taken. -/
  taken_eq : d.taken + e₀.taken = e.taken + d₀.taken
  /-- The same steps have been recorded. -/
  log_eq : ∃ steps, d.log = steps ++ d₀.log ∧ e.log = steps ++ e₀.log

namespace Alike

variable {d e f : Session C F S Y}

theorem refl (d : Session C F S Y) : d.Alike d := ⟨rfl, rfl⟩

theorem symm (h : d.Alike e) : e.Alike d := ⟨h.stack_eq.symm, h.rest_eq.symm⟩

theorem trans (h : d.Alike e) (h' : e.Alike f) : d.Alike f :=
  ⟨h.stack_eq.trans h'.stack_eq, h.rest_eq.trans h'.rest_eq⟩

theorem state_eq (h : d.Alike e) : d.state = e.state := congrArg StateStack.top h.stack_eq

/-- Sessions that are alike are in step from there on. -/
theorem inStep (h : d.Alike e) : InStep d e d e := ⟨h, Nat.add_comm .., [], rfl, rfl⟩

end Alike

namespace InStep

variable {d₀ e₀ d e : Session C F S Y}

theorem take (h : InStep d₀ e₀ d e) : InStep d₀ e₀ d.take.2 e.take.2 where
  alike := ⟨by rw [stack_take, stack_take, h.alike.stack_eq],
    by rw [rest_take, rest_take, h.alike.rest_eq]⟩
  taken_eq := by
    have hd := (Advances.take d).count_eq
    have he := (Advances.take e).count_eq
    simp only [count, rest_take, h.alike.rest_eq] at hd he
    have htaken := h.taken_eq
    omega
  log_eq := by
    rw [log_take, log_take]
    exact h.log_eq

theorem record (h : InStep d₀ e₀ d e) (event : Event C F S Y) :
    InStep d₀ e₀ (d.record event) (e.record event) where
  alike := ⟨h.alike.stack_eq, h.alike.rest_eq⟩
  taken_eq := h.taken_eq
  log_eq := by
    obtain ⟨steps, hd, he⟩ := h.log_eq
    refine ⟨⟨d.stack, event⟩ :: steps, ?_, ?_⟩
    · rw [log_record, hd, List.cons_append]
    · rw [log_record, he, h.alike.stack_eq, List.cons_append]

/-- Sessions in step correspond. -/
theorem correspondence (d₀ e₀ : Session C F S Y) : Correspondence (fun _ ↦ True) (InStep d₀ e₀) where
  of_peek _ := trivial
  of_next _ := trivial
  stack_eq h := h.alike.stack_eq
  taken_iff h h' := by
    have htaken := h.taken_eq
    have htaken' := h'.taken_eq
    omega
  peek h _ := by
    refine ⟨by rw [peek_fst, peek_fst, h.alike.rest_eq], ?_, h.taken_eq, h.log_eq⟩
    exact ⟨h.alike.stack_eq, by rw [rest_peek, rest_peek, h.alike.rest_eq]⟩
  take h _ := ⟨by rw [take_fst, take_fst, h.alike.rest_eq], h.take⟩
  record h event := h.record event
  withStack h _ := ⟨⟨rfl, h.alike.rest_eq⟩, h.taken_eq, h.log_eq⟩

theorem share [Constructor C] (h : InStep d₀ e₀ d e) (c : C) (s : Option S) :
    InStep d₀ e₀ (d.share c s) (e.share c s) :=
  (correspondence d₀ e₀).share h c s

theorem resolved [DecidableEq S] [DecidableEq Y] (h : InStep d₀ e₀ d e) (g : Grammar C F S Y) (x : F)
    (y : Y) (t : Transition C S) : InStep d₀ e₀ (d.resolved g x y t) (e.resolved g x y t) :=
  (correspondence d₀ e₀).resolved h trivial g x y t

end InStep

section Judged

variable [DecidableEq S] [DecidableEq Y] [Diagnostic F] [Diagnostic S] [Diagnostic Y]
  {g : Grammar C F S Y} {d d' : Session C F S Y} {v : Verdict C S}

/-- Sessions in step are judged in the same way. -/
theorem Judged.exists_inStep {d₀ e₀ e : Session C F S Y} (h : d.Judged g v d')
    (hde : InStep d₀ e₀ d e) : ∃ e', e.Judged g v e' ∧ InStep d₀ e₀ d' e' :=
  (InStep.correspondence d₀ e₀).exists_judged h trivial hde

end Judged

end Session

open Session

namespace Parser

variable [DecidableEq S] [DecidableEq Y] [Constructor C] [Diagnostic F] [Diagnostic S]
  [Diagnostic Y] {p : Parser C F S Y N} {check : Bool} {bound : Nat} {c : C} {s : Option S}
  {d₀ e₀ d e d' : Session C F S Y} {outcome : Except ParseError (Option N)}

theorem exists_constructWith_of_inStep
    (h : p.constructWith check bound c s d = some (outcome, d')) (hde : InStep d₀ e₀ d e) :
    ∃ e', p.constructWith check bound c s e = some (outcome, e') ∧ InStep d₀ e₀ d' e' :=
  (corresponds_constructWith (InStep.correspondence d₀ e₀) h trivial).2 hde

/-- **Constructors run in step**, whatever their recipes are. -/
theorem exists_runConstructor_of_inStep (h : p.runConstructor bound c s d = some (outcome, d'))
    (hde : InStep d₀ e₀ d e) :
    ∃ e', p.runConstructor bound c s e = some (outcome, e') ∧ InStep d₀ e₀ d' e' := by
  rw [← constructWith_true] at h ⊢
  exact exists_constructWith_of_inStep h hde

end Parser

end FragmentParser
