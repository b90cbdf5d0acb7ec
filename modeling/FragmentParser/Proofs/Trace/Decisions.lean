import FragmentParser.Proofs.Invariant
import Mathlib.Data.List.Chain

/-!
# A trace is made of whole decisions

A parse records one to three steps for each decision: a fragment is compared with the applicable
symbols, the symbol that was found has a transition, and the transition may put one of the two
innermost frames into another state. Constructors run **between** decisions and never inside one, so
however deep they nest the steps of a decision stay together.

A step of which more is to come `Demands` it, one that comes only in this way `IsDemanded`, and
`Step.Brings` says what comes, with the states and the stack that it has. A sequence of steps is
`Honest` if demanded steps follow those that demand them and stand nowhere else. Such sequences may
follow each other (`Honest.append`), each decision is one (`Session.Judged.logsHonestly`,
`Session.Judged.logsHonestly_share`), and so is what a parse has recorded at any moment
(`Parser.Reaches.honest`), but for the moment between a verdict and the move of the frame that it
shares.
-/

namespace FragmentParser

variable {C F S Y N : Type}

namespace Step

/-- The step does not end its decision: another one comes next. -/
def Demands [Constructor C] (step : Step C F S Y) : Prop :=
  match step.event with
  | .analyzed _ _ matched => matched.isSome
  | .transition _ _ (.construct c s) => Constructor.frame c = .shared ∧ s.isSome
  | .transition _ _ (.redirect _) => 2 ≤ step.stack.depth
  | _ => False

/-- The step does not begin its decision: it comes only behind one that demands it. -/
def IsDemanded (step : Step C F S Y) : Prop :=
  match step.event with
  | .transition .. | .topReplaced .. | .callerReplaced .. => True
  | .children _ | .analyzed .. | .exhausted => False

/-- The first step demands the second one. -/
inductive Brings [Constructor C] [DecidableEq S] [DecidableEq Y] (g : Grammar C F S Y) :
    Step C F S Y → Step C F S Y → Prop where
  /-- The symbol that was found has a transition, for the current state and under the same stack. -/
  | transition {σ : StateStack S} {x : F} {candidates : List Y} {y : Y} {t : Transition C S} :
      g.transition? σ x = some (y, t) →
      Brings g ⟨σ, .analyzed x candidates (some y)⟩ ⟨σ, .transition σ.top y t⟩
  /-- A constructor with a shared frame takes the current frame to its state. -/
  | top {top s : S} {below : List S} {y : Y} {c : C} : Constructor.frame c = .shared →
      Brings g ⟨⟨top, below⟩, .transition top y (.construct c (some s))⟩
        ⟨⟨s, below⟩, .topReplaced top s⟩
  /-- A redirection takes the enclosing frame to its state. -/
  | caller {top old s : S} {below : List S} {y : Y} :
      Brings g ⟨⟨top, old :: below⟩, .transition top y (.redirect s)⟩
        ⟨⟨top, s :: below⟩, .callerReplaced old s⟩

theorem brings_of_replaceCaller? [Constructor C] [DecidableEq S] [DecidableEq Y]
    {g : Grammar C F S Y} {σ τ : StateStack S} {y : Y} {s old : S}
    (h : σ.replaceCaller? s = some (old, τ)) :
    Brings g ⟨σ, .transition σ.top y (.redirect s)⟩ ⟨τ, .callerReplaced old s⟩ := by
  obtain ⟨top, _ | ⟨caller, below⟩⟩ := σ <;> cases h
  exact .caller

end Step

section Honest

variable [Constructor C] [DecidableEq S] [DecidableEq Y] {g : Grammar C F S Y}
  {xs ys : List (Step C F S Y)}

/-- What a step demands comes next, and comes nowhere else. -/
structure Honest (g : Grammar C F S Y) (steps : List (Step C F S Y)) : Prop where
  /-- What is demanded comes next. -/
  brings : ∀ {i a}, steps[i]? = some a → a.Demands →
    ∃ b, steps[i + 1]? = some b ∧ Step.Brings g a b
  /-- What comes only if it is demanded was demanded by the step before it. -/
  brought : ∀ {i b}, steps[i]? = some b → b.IsDemanded →
    ∃ j a, i = j + 1 ∧ steps[j]? = some a ∧ Step.Brings g a b

theorem Honest.nil : Honest g ([] : List (Step C F S Y)) :=
  ⟨fun h ↦ by simp at h, fun h ↦ by simp at h⟩

/-- Honest logs may follow each other. -/
theorem Honest.append (h : Honest g xs) (h' : Honest g ys) : Honest g (xs ++ ys) := by
  constructor
  · intro i a ha hdemands
    rcases Nat.lt_or_ge i xs.length with hi | hi
    · rw [List.getElem?_append_left hi] at ha
      obtain ⟨b, hb, hbrings⟩ := h.brings ha hdemands
      obtain ⟨hlt, -⟩ := List.getElem?_eq_some_iff.1 hb
      exact ⟨b, by rw [List.getElem?_append_left hlt, hb], hbrings⟩
    · rw [List.getElem?_append_right hi] at ha
      obtain ⟨b, hb, hbrings⟩ := h'.brings ha hdemands
      refine ⟨b, ?_, hbrings⟩
      rw [List.getElem?_append_right (by omega), ← hb]
      congr 1
      omega
  · intro i b hb hdemanded
    rcases Nat.lt_or_ge i xs.length with hi | hi
    · rw [List.getElem?_append_left hi] at hb
      obtain ⟨j, a, rfl, ha, hbrings⟩ := h.brought hb hdemanded
      exact ⟨j, a, rfl, by rw [List.getElem?_append_left (by omega), ha], hbrings⟩
    · rw [List.getElem?_append_right hi] at hb
      obtain ⟨j, a, hj, ha, hbrings⟩ := h'.brought hb hdemanded
      refine ⟨xs.length + j, a, by omega, ?_, hbrings⟩
      rw [List.getElem?_append_right (by omega), ← ha]
      congr 1
      omega

/-- The steps of one decision are honest, if nothing has to come before them or behind. -/
theorem honest_of_isChain (h : xs.IsChain (Step.Brings g)) (hfirst : ∀ a ∈ xs.head?, ¬a.IsDemanded)
    (hlast : ∀ a ∈ xs.getLast?, ¬a.Demands) : Honest g xs := by
  rw [List.isChain_iff_getElem] at h
  constructor
  · intro i a ha hdemands
    obtain ⟨hi, rfl⟩ := List.getElem?_eq_some_iff.1 ha
    by_cases hnext : i + 1 < xs.length
    · exact ⟨xs[i + 1], List.getElem?_eq_getElem hnext, h i hnext⟩
    · have hi' : i = xs.length - 1 := by omega
      refine absurd hdemands (hlast _ ?_)
      rw [List.getLast?_eq_getElem?, ← hi', ha]
      rfl
  · intro i b hb hdemanded
    obtain ⟨hi, rfl⟩ := List.getElem?_eq_some_iff.1 hb
    rcases i with _ | j
    · refine absurd hdemanded (hfirst _ ?_)
      rw [List.head?_eq_getElem?, hb]
      rfl
    · exact ⟨j, xs[j], rfl, List.getElem?_eq_getElem (by omega), h j hi⟩

/-- A step by itself. -/
theorem honest_singleton {a : Step C F S Y} (hfirst : ¬a.IsDemanded) (hlast : ¬a.Demands) :
    Honest g [a] := by
  refine honest_of_isChain (List.isChain_singleton a) (fun b hb ↦ ?_) fun b hb ↦ ?_
  · exact Option.some.inj hb ▸ hfirst
  · exact Option.some.inj hb ▸ hlast

variable {σ : StateStack S} {x : F} {candidates : List Y} {y : Y} {t : Transition C S}

/-- A decision that replaces no state. -/
theorem honest_resolved (ht : g.transition? σ x = some (y, t))
    (hlast : ¬Step.Demands (⟨σ, .transition σ.top y t⟩ : Step C F S Y)) :
    Honest g [⟨σ, .analyzed x candidates (some y)⟩, ⟨σ, .transition σ.top y t⟩] := by
  refine honest_of_isChain (List.isChain_pair.2 (.transition ht)) (fun a ha ↦ ?_) fun a ha ↦ ?_
  · exact Option.some.inj ha ▸ id
  · exact Option.some.inj ha ▸ hlast

/-- A decision that replaces one. -/
theorem honest_replaced (ht : g.transition? σ x = some (y, t)) {b : Step C F S Y}
    (hb : Step.Brings g ⟨σ, .transition σ.top y t⟩ b) (hlast : ¬b.Demands) :
    Honest g [⟨σ, .analyzed x candidates (some y)⟩, ⟨σ, .transition σ.top y t⟩, b] := by
  have hfound : Step.Brings g ⟨σ, .analyzed x candidates (some y)⟩ ⟨σ, .transition σ.top y t⟩ :=
    .transition ht
  have hchain := List.isChain_cons_cons.2 ⟨hfound, List.isChain_pair.2 hb⟩
  refine honest_of_isChain hchain (fun a ha ↦ ?_) fun a ha ↦ ?_
  · exact Option.some.inj ha ▸ id
  · exact Option.some.inj ha ▸ hlast

end Honest

namespace Session

/-- New steps come behind the others. -/
theorem steps_of_log {d d' : Session C F S Y} (new : List (Step C F S Y))
    (h : d'.log = new ++ d.log) : d'.steps = d.steps ++ new.reverse := by
  rw [steps, h, List.reverse_append, steps]

variable [Constructor C]

theorem share_of_shared {c : C} (h : Constructor.frame c = .shared) (d : Session C F S Y) (s : S) :
    d.share c (some s) =
      { d with stack := d.stack.replaceTop s }.record (.topReplaced d.state s) := by
  simp only [share, h]

/-- Without a state there is nothing to share, and a frame of one's own is not shared. -/
theorem share_eq_self {c : C} {s : Option S} (h : ¬(Constructor.frame c = .shared ∧ s.isSome))
    (d : Session C F S Y) : d.share c s = d := by
  unfold share
  split
  · next hframe => exact absurd ⟨hframe, rfl⟩ h
  · rfl

variable [DecidableEq S] [DecidableEq Y] {g : Grammar C F S Y} {d d' : Session C F S Y}

/-- From `d` to `d'` whole decisions are recorded, honestly. -/
def LogsHonestly (g : Grammar C F S Y) (d d' : Session C F S Y) : Prop :=
  ∃ new, d'.steps = d.steps ++ new ∧ Honest g new

namespace LogsHonestly

theorem of_log (h : d'.log = d.log) : d.LogsHonestly g d' :=
  ⟨[], by rw [steps, h, steps, List.append_nil], .nil⟩

theorem trans {d'' : Session C F S Y} (h : d.LogsHonestly g d') (h' : d'.LogsHonestly g d'') :
    d.LogsHonestly g d'' := by
  obtain ⟨new, hnew, hhonest⟩ := h
  obtain ⟨new', hnew', hhonest'⟩ := h'
  exact ⟨new ++ new', by rw [hnew', hnew, List.append_assoc], hhonest.append hhonest'⟩

theorem record_children (d : Session C F S Y) (parent : String) :
    d.LogsHonestly g (d.record (.children parent)) :=
  ⟨_, steps_of_log [_] rfl, honest_singleton id id⟩

end LogsHonestly

variable [Diagnostic F] [Diagnostic S] [Diagnostic Y]

/-- A verdict that ends the building is recorded as one decision. -/
theorem Judged.logsHonestly {ending : Ending S} (h : d.Judged g (.finish ending) d') :
    d.LogsHonestly g d' := by
  cases h with
  | exhausted => exact ⟨_, steps_of_log [_] rfl, honest_singleton id id⟩
  | unmatched => exact ⟨_, steps_of_log [_] rfl, honest_singleton id Bool.noConfusion⟩
  | stopped _ ht => exact ⟨_, steps_of_log [_, _] rfl, honest_resolved ht id⟩
  | orphaned _ ht hσ =>
    refine ⟨_, steps_of_log [_, _] rfl, honest_resolved ht fun hdepth ↦ ?_⟩
    have hroot : d.stack.depth = 1 := StateStack.replaceCaller?_eq_none_iff.1 hσ
    have hdepth : 2 ≤ d.stack.depth := hdepth
    omega
  | redirected _ ht hσ =>
    exact ⟨_, steps_of_log [_, _, _] rfl, honest_replaced ht (Step.brings_of_replaceCaller? hσ) id⟩

/-- So is one that runs a constructor, together with what the constructor does to the current state
before it runs. -/
theorem Judged.logsHonestly_share {c : C} {s : Option S} (h : d.Judged g (.construct c s) d') :
    d.LogsHonestly g (d'.share c s) := by
  obtain ⟨x, xs, y, -, ht, rfl⟩ := h.exists_resolved
  by_cases hshared : Constructor.frame c = .shared ∧ s.isSome
  · obtain ⟨hframe, hs⟩ := hshared
    obtain ⟨s, rfl⟩ := Option.isSome_iff_exists.1 hs
    rw [share_of_shared hframe]
    exact ⟨_, steps_of_log [_, _, _] rfl, honest_replaced ht (.top hframe) id⟩
  · rw [share_eq_self hshared]
    exact ⟨_, steps_of_log [_, _] rfl, honest_resolved ht hshared⟩

/-- Whatever a parse does is honest. -/
theorem LogsHonestly.invariant (g : Grammar C F S Y) (d : Session C F S Y) :
    Invariant g (d.LogsHonestly g) where
  peek h := h.trans (.of_log rfl)
  take h := h.trans (.of_log (log_take _))
  children h parent := h.trans (.record_children _ parent)
  finish hj h := h.trans hj.logsHonestly
  construct hj h := h.trans hj.logsHonestly_share
  openFrame h _ := h.trans (.of_log rfl)
  closeFrame h := h.trans (.of_log rfl)

end Session

open Session

/-- **At every moment of a parse the steps so far are honest**, once the decision that is under way
has been settled. -/
theorem Parser.Reaches.honest [DecidableEq S] [DecidableEq Y] [Constructor C] [Diagnostic F]
    [Diagnostic S] [Diagnostic Y] {p : Parser C F S Y N} {reader : Lookahead F} {n : Nat}
    {m : Parser.Moment C F S Y N} {d : Session C F S Y} (h : p.Reaches reader n m d) :
    Honest p.grammar (m.settle d).steps := by
  obtain ⟨new, hnew, hhonest⟩ := h.invariant (LogsHonestly.invariant p.grammar _) (.of_log rfl)
  rw [hnew]
  exact hhonest

end FragmentParser
