import FragmentParser.Proofs.Outline.Design
import FragmentParser.Proofs.Pile
import FragmentParser.Proofs.Simulation

/-!
# One stack of open frames

A parse by recursion and a parse by a **pushdown machine** come to the same. The machine keeps one
stack of open frames, each a state with the element that takes its children, and looks at the head
fragment in the topmost state:

* a leaf is added to the topmost element;
* a container pushes a frame with its element, in the state that the rule names or in a copy of the
  topmost one, and a series pushes the frame of its first child as well;
* a shared constructor with a state puts the topmost frame into that state before;
* `stop` pops the frame and adds its node to the element below, `redirect` puts the frame below into
  another state as well and fails when there is none;
* at the end of the input all frames are popped, and the node of the last one is the result.

The recursion keeps states and elements in different places, the states in the session and the
elements in the calls that are open. `FragmentParser.Proofs.Simulation` runs it as a machine on a
stack of states and an assembly of elements; for piles the two are the two halves of one stack of
frames (`Pushdown.unzip`), and the steps correspond one by one.
-/

namespace FragmentParser

variable {C F S Y E N : Type}

/-- An open frame. -/
structure OpenFrame (S E : Type) where
  /-- Its state. -/
  state : S
  /-- The element that takes its children. -/
  element : E

/-- A configuration of the pushdown machine: the open frames, never none, and the fragments to
come. -/
structure Pushdown (F S E : Type) where
  /-- The innermost frame. -/
  top : OpenFrame S E
  /-- The frames around it, the nearest first. -/
  below : List (OpenFrame S E)
  /-- The fragments to come. -/
  rest : List F

namespace Pushdown

/-- The states of the open frames. -/
def states (c : Pushdown F S E) : StateStack S := ⟨c.top.state, c.below.map OpenFrame.state⟩

/-- Put the topmost frame into the state of a constructor with this frame mode. -/
def share (c : Pushdown F S E) : Frame → Option S → Pushdown F S E
  | .shared, some s => { c with top := { c.top with state := s } }
  | _, _ => c

section Machine

variable (d : Design C F S E N)

/-- Pop the topmost frame, and add its node to the element below. The last frame's node is the
result. -/
def pop (c : Pushdown F S E) : Pushdown F S E ⊕ Except ParseError N :=
  match c.below with
  | [] => .inr (.ok (d.finish c.top.element))
  | f :: below =>
    .inl ⟨{ f with element := d.append f.element (d.finish c.top.element) }, below, c.rest⟩

/-- Run constructor `k` for the fragment `x`, before the fragments `xs`. -/
def build (k : C) (s : Option S) (x : F) (xs : List F) (c : Pushdown F S E) :
    Pushdown F S E ⊕ Except ParseError N :=
  let state := s.getD c.top.state
  match d.shape k with
  | .root _ => .inl { c with rest := xs }
  | .leaf make =>
    .inl ⟨{ c.top with element := (make x).toList.foldl d.append c.top.element }, c.below, xs⟩
  | .container start => .inl ⟨⟨state, start x⟩, c.top :: c.below, xs⟩
  | .series start _ item s' =>
    match start (some x) with
    | .error e => .inr (.error e)
    | .ok e => .inl ⟨⟨s'.getD state, item x⟩, ⟨state, e⟩ :: c.top :: c.below, xs⟩

/-! ### The two halves of the stack -/

/-- The configuration with states and elements on stacks of their own. -/
def unzip (c : Pushdown F S E) : Design.Config F S (Pile E) :=
  ⟨c.states, ⟨c.top.element, c.below.map OpenFrame.element⟩, c.rest⟩

theorem leave_unzip (c : Pushdown F S E) :
    Design.leave d.pile c.unzip.stack c.unzip.work c.unzip.rest = (c.pop d).map unzip id := by
  obtain ⟨top, _ | ⟨f, below⟩, rest⟩ := c <;> rfl

theorem states_share (c : Pushdown F S E) (f : Frame) (s : Option S) :
    (c.share f s).states = c.states.share f s := by
  cases f <;> cases s <;> rfl

theorem work_share (c : Pushdown F S E) (f : Frame) (s : Option S) :
    (c.share f s).unzip.work = c.unzip.work := by
  cases f <;> cases s <;> rfl

theorem enter_unzip (k : C) (s : Option S) (x : F) (xs : List F) (c : Pushdown F S E) :
    Design.enter d d.pile k s c.states c.unzip.work x xs = (c.build d k s x xs).map unzip id := by
  rw [Design.enter, build]
  rcases d.shape k with e | make | start | ⟨start, first, item, s'⟩
  · rfl
  · simp only [Design.addAll_pile]
    rfl
  · rfl
  · rcases hx : start (some x) with e | e <;> simp only [hx] <;> rfl

variable [DecidableEq S] [DecidableEq Y] [Constructor C] [Diagnostic F] [Diagnostic S]
  [Diagnostic Y] (g : Grammar C F S Y)

/-! ### Steps and runs -/

/-- One step of the machine. -/
def step (c : Pushdown F S E) : Pushdown F S E ⊕ Except ParseError N :=
  match c.rest with
  | [] => c.pop d
  | x :: xs =>
    match g.transition? c.states x with
    | none =>
      .inr (.error (.noRecognizerMatch (fragmentText x) (text c.top.state)
        ((g.applicable c.top.state).map text)))
    | some (_, .stop) => c.pop d
    | some (_, .redirect s) =>
      match c.below with
      | [] => .inr (.error (.noAncestor (text c.top.state)))
      | f :: below => pop d { c with below := { f with state := s } :: below }
    | some (_, .construct k s) => (c.share (Constructor.frame k) s).build d k s x xs

/-- The halves make the step that the whole makes. -/
theorem step_unzip (c : Pushdown F S E) :
    d.step d.pile g c.unzip = (c.step d g).map unzip id := by
  obtain ⟨top, below, rest⟩ := c
  cases rest with
  | nil => exact leave_unzip d ⟨top, below, []⟩
  | cons x xs =>
    dsimp only [step, unzip, Design.step]
    rcases g.transition? (states ⟨top, below, x :: xs⟩) x with _ | ⟨y, ⟨k, s⟩ | _ | s⟩
    · rfl
    · show Design.enter d d.pile k s ((states ⟨top, below, x :: xs⟩).share (Constructor.frame k) s)
        (unzip ⟨top, below, x :: xs⟩).work x xs = _
      rw [← states_share, ← work_share _ (Constructor.frame k) s, enter_unzip]
    · exact leave_unzip d ⟨top, below, x :: xs⟩
    · cases below with
      | nil => rfl
      | cons f below => exact leave_unzip d ⟨top, { f with state := s } :: below, x :: xs⟩

/-- Every step takes a fragment or pops a frame, and it pushes two frames at most. -/
theorem size_unzip_lt {c c' : Pushdown F S E} (h : c.step d g = .inl c') :
    c'.unzip.size < c.unzip.size := by
  refine d.size_step_lt d.pile g ?_
  rw [step_unzip, h]
  rfl

/-- Run the machine to its end. -/
def run (c : Pushdown F S E) : Except ParseError N :=
  match _h : c.step d g with
  | .inl c' => run c'
  | .inr outcome => outcome
termination_by c.unzip.size
decreasing_by exact size_unzip_lt d g _h

/-- The halves come to what the whole comes to. -/
theorem run_unzip (c : Pushdown F S E) : d.run d.pile g c.unzip = c.run d g := by
  induction hn : c.unzip.size using Nat.strongRecOn generalizing c with
  | ind n ih =>
    rw [Design.run_eq, step_unzip, run]
    split
    · next c' h =>
      rw [h]
      exact ih _ (hn ▸ size_unzip_lt d g h) c' rfl
    · next outcome h =>
      rw [h]
      rfl

end Machine

end Pushdown

variable [DecidableEq S] [DecidableEq Y] [Constructor C] [Diagnostic F] [Diagnostic S]
  [Diagnostic Y]

/-- **Parsing is running a pushdown machine.** Let the initial constructor of a parser build
children for one element, and let every constructor that the table names take a fragment and be a
leaf or a container, or else be a series. The rules may be fixed or computed and the frames shared
or not. Then every parse has an outcome, and it is that of the machine that begins with the element
of the root in the initial state. -/
theorem Design.Describes.parse_eq_pushdown {d : Design C F S E N} {p : Parser C F S Y N}
    (h : d.Describes p) {e : E} (hroot : d.shape p.grammar.initialConstructor = .root e)
    (fragments : List F) :
    ∃ session, ∀ bound, 2 * (fragments.length + 1) ≤ bound →
      p.run bound (.ofList fragments) = some
        ((⟨⟨p.grammar.initialState, e⟩, [], fragments⟩ : Pushdown F S E).run d p.grammar,
          session) := by
  obtain ⟨outcome, session, hrun⟩ := Parser.exists_run_of_takesFirst h.takesFirst fragments
  have hmachine := h.run_eq d.pile_keeps hroot (hrun _ (Nat.le_refl _))
  rw [Lookahead.toList_ofList] at hmachine
  have houtcome : (⟨⟨p.grammar.initialState, e⟩, [], fragments⟩ : Pushdown F S E).run d p.grammar =
      outcome := (Pushdown.run_unzip d p.grammar _).symm.trans hmachine
  rw [houtcome]
  exact ⟨session, hrun⟩

/-- An outline whose subsection is redirected, after which a shared constructor moves the section
on. -/
theorem Outline.parse_eq_pushdown_redirect :
    ∃ t, t = .element "body" .empty
        [.element "section" ((NameTable.empty.insert "ordinal" "1").insert "title" "One")
          [.element "subsection" ((NameTable.empty.insert "ordinal" "1.1").insert "title" "Sub") [],
            .element "paragraph" (NameTable.empty.insert "id" "state-a") [.text "State A: go"]]] ∧
      Outline.design.Describes Outline.parser ∧
      Outline.design.shape Outline.parser.grammar.initialConstructor = .root (.ofKind "body") ∧
      ((Outline.parser.run 8 (.ofList ["1 One", "1.1 Sub", "State A: go"])).map Prod.fst =
        some (.ok t)) ∧
      (⟨⟨.body, .ofKind "body"⟩, [], ["1 One", "1.1 Sub", "State A: go"]⟩ :
        Pushdown String Outline.State Element).run Outline.design Outline.parser.grammar = .ok t := by
  refine ⟨_, rfl, Outline.describes, rfl, rfl, ?_⟩
  obtain ⟨session, hrun⟩ :=
    Outline.describes.parse_eq_pushdown rfl ["1 One", "1.1 Sub", "State A: go"]
  have houtcome := congrArg (Option.map Prod.fst) (hrun 8 (by decide))
  exact Option.some.inj houtcome.symm

end FragmentParser
