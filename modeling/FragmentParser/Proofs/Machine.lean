import FragmentParser.Proofs.Frame
import FragmentParser.Proofs.Shape
import FragmentParser.Proofs.StackDiscipline
import Mathlib.Logic.Relation

/-!
# Parsers as pushdown machines

A parser with a design needs no recursion. What its mutually recursive activities keep on the call
stack is one state and one open element for each frame, and so it can be run by a **machine** that
looks at the head fragment and then closes a frame, adds a node, or opens one frame or two.

Where open elements are kept is left to an `Assembly`, of which only two laws are asked: an element
that is opened, filled and closed counts as a node added to the element around it, and the root
comes out as it was filled. A stack of open elements is an assembly, and so is the tree itself, with
the open elements along its right edge.

The machine's measure is the number of fragments to come, and then the number of frames
(`Design.size_step_lt`). `Design.Describes.run_eq` says that parser and machine agree, which is
proved for single runs of constructors **with whatever is around them**: from where the run begins
the machine comes to where it is over, with its node added (`Design.Comes`).
-/

namespace FragmentParser

variable {C F S Y E N W : Type}

/-- How the elements under construction are kept, as a `W`. Elements are open at depths from `0`,
the root's, and depths count the elements around. -/
structure Assembly (E N W : Type) where
  /-- The root is open. -/
  root : E → W
  /-- Open an element inside the one at this depth. -/
  openIn : Nat → E → W → W
  /-- Add a node to the element at this depth, the innermost. -/
  add : Nat → N → W → W
  /-- Close the element at this depth, the innermost. -/
  close : Nat → W → W
  /-- The root's node when the root alone is open. -/
  result : W → N

namespace Assembly

/-- Add nodes to the element at this depth. -/
def addAll (a : Assembly E N W) (depth : Nat) (nodes : List N) (w : W) : W :=
  nodes.foldl (fun w n ↦ a.add depth n w) w

theorem addAll_append (a : Assembly E N W) (depth : Nat) (ms ns : List N) (w : W) :
    a.addAll depth (ms ++ ns) w = a.addAll depth ns (a.addAll depth ms w) :=
  List.foldl_append

/-- The assembly keeps elements as the design completes them. -/
structure Keeps (a : Assembly E N W) (d : Design C F S E N) : Prop where
  /-- The root comes out as it was filled. -/
  result_root : ∀ e nodes, a.result (a.addAll 0 nodes (a.root e)) = d.finish (nodes.foldl d.append e)
  /-- An element that was opened, filled and closed is a node that was added. -/
  close_openIn : ∀ depth e nodes w, a.close (depth + 1) (a.addAll (depth + 1) nodes
    (a.openIn depth e w)) = a.add depth (d.finish (nodes.foldl d.append e)) w

end Assembly

namespace Design

/-- A configuration of the machine. -/
structure Config (F S W : Type) where
  /-- The states of the open frames. -/
  stack : StateStack S
  /-- The open elements. -/
  work : W
  /-- The fragments to come. -/
  rest : List F

/-- The measure of the machine. -/
def Config.size (c : Config F S W) : Nat := 3 * c.rest.length + c.stack.below.length

/-- What a step leads to: another configuration, or the end. -/
abbrev Next (F S W N : Type) : Type := Config F S W ⊕ Except ParseError N

section Machine

variable (d : Design C F S E N) (a : Assembly E N W) (g : Grammar C F S Y)

/-- Close the innermost frame; after the root is the end. -/
def leave (σ : StateStack S) (w : W) (xs : List F) : Next F S W N :=
  match σ.below with
  | [] => .inr (.ok (a.result w))
  | _ :: rest => .inl ⟨σ.pop, a.close (rest.length + 1) w, xs⟩

/-- Run constructor `c` for the head fragment. A root has no business here, and does nothing. -/
def enter (c : C) (s : Option S) (σ : StateStack S) (w : W) (x : F) (xs : List F) : Next F S W N :=
  let depth := σ.below.length
  let inner := σ.push (s.getD σ.top)
  match d.shape c with
  | .root _ => .inl ⟨σ, w, xs⟩
  | .leaf make => .inl ⟨σ, a.addAll depth (make x).toList w, xs⟩
  | .container start => .inl ⟨inner, a.openIn depth (start x) w, xs⟩
  | .series start _ item s =>
    match start (some x) with
    | .error e => .inr (.error e)
    | .ok e =>
      .inl ⟨inner.push (s.getD inner.top), a.openIn (depth + 1) (item x) (a.openIn depth e w), xs⟩

/-- Closing a frame that is not the root's. -/
theorem leave_of_length {σ : StateStack S} {depth : Nat} (h : σ.below.length = depth + 1) (w : W)
    (xs : List F) : leave a σ w xs = (.inl ⟨σ.pop, a.close (depth + 1) w, xs⟩ : Next F S W N) := by
  obtain ⟨top, _ | ⟨s, rest⟩⟩ := σ
  · cases h
  · cases h
    rfl

theorem size_leave_lt {σ : StateStack S} {w : W} {xs : List F} {c : Config F S W}
    (h : leave a σ w xs = .inl c) : c.size < 3 * xs.length + σ.below.length := by
  rw [leave] at h
  obtain ⟨top, _ | ⟨s, rest⟩⟩ := σ
  · cases h
  · cases h
    simp [Config.size, StateStack.pop]

theorem size_enter_lt {k : C} {s : Option S} {σ : StateStack S} {w : W} {x : F} {xs : List F}
    {c : Config F S W} (h : enter d a k s σ w x xs = .inl c) :
    c.size < 3 * (x :: xs).length + σ.below.length := by
  rw [enter] at h
  rw [List.length_cons]
  split at h
  · cases h
    simp only [Config.size]
    omega
  · cases h
    simp only [Config.size]
    omega
  · cases h
    simp only [Config.size, StateStack.push, List.length_cons]
    omega
  · split at h
    · cases h
    · cases h
      simp only [Config.size, StateStack.push, List.length_cons]
      omega

variable [DecidableEq S] [DecidableEq Y] [Constructor C] [Diagnostic F] [Diagnostic S]
  [Diagnostic Y]

/-- One step of the machine. -/
def step : Config F S W → Next F S W N
  | ⟨σ, w, []⟩ => leave a σ w []
  | ⟨σ, w, x :: xs⟩ =>
    match g.transition? σ x with
    | none =>
      .inr (.error (.noRecognizerMatch (fragmentText x) (text σ.top) ((g.applicable σ.top).map text)))
    | some (_, .stop) => leave a σ w (x :: xs)
    | some (_, .redirect s) =>
      match σ.replaceCaller? s with
      | none => .inr (.error (.noAncestor (text σ.top)))
      | some (_, τ) => leave a τ w (x :: xs)
    | some (_, .construct c s) => enter d a c s (σ.share (Constructor.frame c) s) w x xs

/-- Every step takes a fragment or closes a frame, and it opens two frames at most. -/
theorem size_step_lt {c c' : Config F S W} (h : d.step a g c = .inl c') : c'.size < c.size := by
  obtain ⟨σ, w, _ | ⟨x, xs⟩⟩ := c
  · exact size_leave_lt a h
  · rw [step] at h
    split at h
    · cases h
    · exact size_leave_lt a h
    · next s _ =>
      split at h
      · cases h
      · next hσ =>
        have hdepth : _ + 1 = _ + 1 := (StateStack.depth_of_replaceCaller? hσ).1
        have hlt := size_leave_lt a h
        rw [Nat.succ.inj hdepth] at hlt
        exact hlt
    · have hlt := size_enter_lt d a h
      rw [StateStack.below_share] at hlt
      exact hlt

/-- A step takes the head fragment or leaves it, and looks at no other. -/
theorem step_cons_cases {σ : StateStack S} {w : W} {x : F} {xs : List F} {c : Config F S W}
    (h : d.step a g ⟨σ, w, x :: xs⟩ = .inl c) :
    (c.rest = x :: xs ∧ ∀ ys, d.step a g ⟨σ, w, x :: ys⟩ = .inl ⟨c.stack, c.work, x :: ys⟩) ∨
      c.rest = xs ∧ ∀ ys, d.step a g ⟨σ, w, x :: ys⟩ = .inl ⟨c.stack, c.work, ys⟩ := by
  have hleave : ∀ {τ : StateStack S}, leave a τ w (x :: xs) = (.inl c : Next F S W N) →
      c.rest = x :: xs ∧ ∀ ys, leave a τ w ys = (.inl ⟨c.stack, c.work, ys⟩ : Next F S W N) := by
    rintro ⟨top, _ | ⟨b, rest⟩⟩ hτ
    · cases hτ
    · cases hτ
      exact ⟨rfl, fun _ ↦ rfl⟩
  rw [step] at h
  simp only [step]
  split at h
  · cases h
  · exact .inl ((hleave h).imp_right fun hys ys ↦ hys (x :: ys))
  · split at h
    · cases h
    · exact .inl ((hleave h).imp_right fun hys ys ↦ hys (x :: ys))
  · rw [enter] at h
    simp only [enter]
    split at h
    · cases h
      exact .inr ⟨rfl, fun _ ↦ rfl⟩
    · cases h
      exact .inr ⟨rfl, fun _ ↦ rfl⟩
    · cases h
      exact .inr ⟨rfl, fun _ ↦ rfl⟩
    · split at h
      · cases h
      · cases h
        exact .inr ⟨rfl, fun _ ↦ rfl⟩

/-- Run the machine to its end. -/
def run (c : Config F S W) : Except ParseError N :=
  match _h : d.step a g c with
  | .inl c' => run c'
  | .inr outcome => outcome
termination_by c.size
decreasing_by exact d.size_step_lt a g _h

/-- Run the machine from what a step leads to. -/
def goOn : Next F S W N → Except ParseError N
  | .inl c => d.run a g c
  | .inr outcome => outcome

theorem run_eq (c : Config F S W) : d.run a g c = d.goOn a g (d.step a g c) := by
  rw [run]
  split
  · next h => rw [h, goOn]
  · next h => rw [h, goOn]

/-! ### The points of a run -/

/-- The machine comes from one point of a run to the other, step by step. -/
abbrev Comes : Next F S W N → Next F S W N → Prop :=
  Relation.ReflTransGen fun n n' ↦ ∃ c, n = .inl c ∧ d.step a g c = n'

/-- The machine gets from one configuration to the other. -/
abbrev Leads : Config F S W → Config F S W → Prop :=
  Relation.ReflTransGen fun c c' ↦ d.step a g c = .inl c'

variable {d a g} {n n' : Next F S W N} {c c' : Config F S W}

/-- Along a run the outcome stays. -/
theorem Comes.goOn_eq (h : d.Comes a g n n') : d.goOn a g n = d.goOn a g n' := by
  induction h with
  | refl => rfl
  | tail _ hstep ih =>
    obtain ⟨c, rfl, rfl⟩ := hstep
    exact ih.trans (d.run_eq a g c)

/-- Between two configurations there are configurations only. -/
theorem Comes.leads (h : d.Comes a g (.inl c) (.inl c')) : d.Leads a g c c' := by
  generalize hend : (.inl c' : Next F S W N) = n at h
  induction h generalizing c' with
  | refl =>
    cases hend
    exact .refl
  | tail _ hstep ih =>
    obtain ⟨c₁, rfl, hstep⟩ := hstep
    exact (ih rfl).tail (hstep.trans hend.symm)

/-- So configurations of one run have one outcome. -/
theorem Leads.run_eq (h : d.Leads a g c c') : d.run a g c = d.run a g c' := by
  induction h with
  | refl => rfl
  | tail _ hstep ih => rw [ih, Design.run_eq, hstep, goOn]

/-- On the way to the end of the fragments each of them is taken in one step. -/
theorem Leads.exists_taking {before xs : List F} {x : F}
    (h : d.Leads a g c c') (hend : c'.rest = []) (hrest : c.rest = before ++ x :: xs) :
    ∃ b b', d.Leads a g c b ∧ d.step a g b = .inl b' ∧ d.Leads a g b' c' ∧ b.rest = x :: xs ∧
      b'.rest = xs := by
  induction h using Relation.ReflTransGen.head_induction_on generalizing before with
  | refl =>
    rw [hrest] at hend
    exact absurd hend (List.append_ne_nil_of_right_ne_nil before (List.cons_ne_nil x xs))
  | @head b b' hstep hleads ih =>
    obtain ⟨σ, w, ys⟩ := b
    obtain rfl : ys = before ++ x :: xs := hrest
    -- a step takes one fragment at most
    have hlater : (∃ before', b'.rest = before' ++ x :: xs) ∨ before = [] ∧ b'.rest = xs := by
      rcases before with _ | ⟨y, before⟩
      · exact (d.step_cons_cases a g hstep).imp (fun h ↦ ⟨[], h.1⟩) fun h ↦ ⟨rfl, h.1⟩
      · exact .inl ((d.step_cons_cases a g hstep).elim (fun h ↦ ⟨y :: before, h.1⟩) fun h ↦
          ⟨before, h.1⟩)
    rcases hlater with ⟨before', hbefore⟩ | ⟨rfl, hxs⟩
    · obtain ⟨e, e', he, htaking⟩ := ih hbefore
      exact ⟨e, e', .head hstep he, htaking⟩
    · exact ⟨_, b', .refl, hstep, hleads, rfl, hxs⟩

variable (d a g) in
/-- Every run gets to a configuration whose next step is its end. -/
theorem exists_leads (c : Config F S W) :
    ∃ c', d.Leads a g c c' ∧ d.step a g c' = .inr (d.run a g c) := by
  -- on the measure of the machine
  induction hn : c.size using Nat.strongRecOn generalizing c with
  | ind n ih =>
    rw [run_eq]
    rcases hstep : d.step a g c with c₁ | outcome
    · obtain ⟨c', hleads, hend⟩ := ih c₁.size (hn ▸ d.size_step_lt a g hstep) c₁ rfl
      exact ⟨c', .head hstep hleads, hend⟩
    · exact ⟨c, .refl, hstep⟩

end Machine

end Design

end FragmentParser
