import FragmentParser.Parser
import FragmentParser.Proofs.Verdict

/-!
# What a frame can reach

A constructor that runs in a frame of its own can put the frame **below** into another state, and
nothing deeper: of the enclosing frames it sees the nearest only. Two relations between the session
before and after an activity say so.

* `Session.Within` holds of what happens *inside* the innermost frame: building children, or
  following a recipe. Apart from the innermost two states the stack is as before.
* `Session.Beside` holds of a constructor's whole run, with its frame opened and closed again. Apart
  from the innermost state the stack is as before.

Closing the frame turns the first into the second (`Session.Within.closeFrame`), the second implies
the first (`Session.Beside.within`), and both compose. Each relation also says how deep the steps
lie that were recorded meanwhile: those of a constructor's run lie above the frame that it was run
from.
-/

namespace FragmentParser

namespace StateStack

variable {S : Type}

/-- Below the new top lies what lay below the second frame. -/
theorem below_pop (σ : StateStack S) : σ.pop.below = σ.below.tail := by
  obtain ⟨top, _ | ⟨b, rest⟩⟩ := σ <;> rfl

theorem depth_eq_of_below_eq {σ τ : StateStack S} (h : σ.below = τ.below) : σ.depth = τ.depth := by
  rw [depth, depth, h]

/-- A replaced caller is the nearest of the enclosing frames. -/
theorem below_of_replaceCaller? {σ τ : StateStack S} {s old : S}
    (h : σ.replaceCaller? s = some (old, τ)) : τ.below = s :: σ.below.tail := by
  obtain ⟨top, _ | ⟨b, rest⟩⟩ := σ
  · simp [replaceCaller?] at h
  · simp only [replaceCaller?, Option.some.injEq, Prod.mk.injEq] at h
    obtain ⟨-, rfl⟩ := h
    rfl

end StateStack

namespace Session

variable {C F S Y : Type}

/-- The steps recorded between two sessions, the latest first, all of which lie at `depth` or
deeper. -/
def Records (depth : Nat) (d d' : Session C F S Y) (steps : List (Step C F S Y)) : Prop :=
  d'.log = steps ++ d.log ∧ ∀ step ∈ steps, depth ≤ step.stack.depth

/-- From `d` the session `d'` is reached inside the innermost frame. -/
structure Within (d d' : Session C F S Y) : Prop where
  /-- Frames that were opened are closed. -/
  depth_eq : d'.stack.depth = d.stack.depth
  /-- All but the innermost two states are as before. -/
  tail_eq : d'.stack.below.tail = d.stack.below.tail
  /-- The steps meanwhile belong to this frame or to inner ones. -/
  records : ∃ steps, Records d.stack.depth d d' steps

/-- From `d` the session `d'` is reached by the whole run of a constructor. -/
structure Beside (d d' : Session C F S Y) : Prop where
  /-- All but the innermost state are as before. -/
  below_eq : d'.stack.below = d.stack.below
  /-- The steps meanwhile belong to inner frames. -/
  records : ∃ steps, Records (d.stack.depth + 1) d d' steps

theorem Records.refl (n : Nat) (d : Session C F S Y) : Records n d d [] :=
  ⟨rfl, fun _ h ↦ absurd h List.not_mem_nil⟩

theorem Records.trans {n : Nat} {d d' d'' : Session C F S Y} {earlier later : List (Step C F S Y)}
    (h : Records n d d' earlier) (h' : Records n d' d'' later) :
    Records n d d'' (later ++ earlier) := by
  refine ⟨by rw [h'.1, h.1, List.append_assoc], fun step hstep ↦ ?_⟩
  rcases List.mem_append.1 hstep with hl | he
  · exact h'.2 step hl
  · exact h.2 step he

theorem Records.mono {m n : Nat} {d d' : Session C F S Y} {steps : List (Step C F S Y)}
    (hmn : m ≤ n) (h : Records n d d' steps) : Records m d d' steps :=
  ⟨h.1, fun step hstep ↦ Nat.le_trans hmn (h.2 step hstep)⟩

/-- The recorded steps are the difference of the logs. -/
theorem Records.eq_of_log {n : Nat} {d d' : Session C F S Y} {steps : List (Step C F S Y)}
    (h : Records n d d' steps) (new : List (Step C F S Y)) (hnew : d'.log = new ++ d.log) :
    steps = new :=
  List.append_cancel_right (h.1.symm.trans hnew)

/-- A step under the current stack lies at the current depth. -/
theorem Records.record (d : Session C F S Y) (e : Event C F S Y) :
    Records d.stack.depth d (d.record e) [⟨d.stack, e⟩] :=
  ⟨rfl, fun _ hstep ↦ List.mem_singleton.1 hstep ▸ Nat.le_refl _⟩

namespace Within

theorem refl (d : Session C F S Y) : d.Within d := ⟨rfl, rfl, [], .refl _ d⟩

theorem trans {d d' d'' : Session C F S Y} (h : d.Within d') (h' : d'.Within d'') :
    d.Within d'' := by
  obtain ⟨earlier, he⟩ := h.records
  obtain ⟨later, hl⟩ := h'.records
  rw [h.depth_eq] at hl
  exact ⟨h'.depth_eq.trans h.depth_eq, h'.tail_eq.trans h.tail_eq, _, he.trans hl⟩

/-- What leaves stack and log alone stays within the frame. -/
theorem of_eq {d d' : Session C F S Y} (hs : d'.stack = d.stack) (hl : d'.log = d.log) :
    d.Within d' :=
  ⟨by rw [hs], by rw [hs], [], hl, fun _ h ↦ absurd h List.not_mem_nil⟩

theorem peek (d : Session C F S Y) : d.Within d.peek.2 := of_eq rfl rfl

theorem take (d : Session C F S Y) : d.Within d.take.2 := of_eq d.stack_take d.log_take

theorem record (d : Session C F S Y) (e : Event C F S Y) : d.Within (d.record e) :=
  ⟨rfl, rfl, _, .record d e⟩

end Within

theorem Beside.depth_eq {d d' : Session C F S Y} (h : d.Beside d') :
    d'.stack.depth = d.stack.depth :=
  StateStack.depth_eq_of_below_eq h.below_eq

theorem Beside.within {d d' : Session C F S Y} (h : d.Beside d') : d.Within d' := by
  obtain ⟨steps, hsteps⟩ := h.records
  exact ⟨h.depth_eq, by rw [h.below_eq], steps, hsteps.mono (Nat.le_succ _)⟩

/-- What happens within a frame that is closed afterwards leaves the frames below its caller
alone. -/
theorem Within.closeFrame {d d' : Session C F S Y} {s : Option S}
    (h : (d.openFrame s).Within d') : d.Beside d'.closeFrame := by
  obtain ⟨steps, hsteps⟩ := h.records
  refine ⟨?_, steps, hsteps⟩
  rw [stack_closeFrame, StateStack.below_pop, h.tail_eq]
  rfl

/-- Sharing the frame with a constructor records one step at most, that the state was replaced. -/
theorem log_share [Constructor C] (d : Session C F S Y) (c : C) (s : Option S) :
    (d.share c s).log = d.log ∨
      ∃ new, (d.share c s).log = ⟨(d.share c s).stack, .topReplaced d.state new⟩ :: d.log := by
  unfold share
  rcases Constructor.frame c with _ | _ <;> rcases s with _ | s
  · exact .inl rfl
  · exact .inr ⟨s, rfl⟩
  · exact .inl rfl
  · exact .inl rfl

theorem within_share [Constructor C] (d : Session C F S Y) (c : C) (s : Option S) :
    d.Within (d.share c s) := by
  refine ⟨by simp, by simp, ?_⟩
  rcases d.log_share c s with h | ⟨new, h⟩
  · exact ⟨[], h, fun _ hstep ↦ absurd hstep List.not_mem_nil⟩
  · refine ⟨[_], h, fun step hstep ↦ ?_⟩
    rw [List.mem_singleton.1 hstep]
    exact Nat.le_of_eq (by rw [stack_share, StateStack.depth_share])

/-- A verdict that runs a constructor leaves the stack alone. -/
theorem within_resolved [DecidableEq S] [DecidableEq Y] (d : Session C F S Y)
    (g : Grammar C F S Y) (x : F) (y : Y) (t : Transition C S) : d.Within (d.resolved g x y t) :=
  ((Within.peek d).trans (.record _ _)).trans (.record _ _)

end Session

end FragmentParser
