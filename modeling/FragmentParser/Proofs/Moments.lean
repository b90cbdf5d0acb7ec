import FragmentParser.Proofs.Simulation

/-!
# The machine at every moment of a parse

Parser and machine agree on the outcome of a parse (`Design.Describes.run_eq`). They agree on the
way to it as well: whenever a parse is about to judge a fragment, the machine gets to **the same
states and fragments** (`Design.Describes.leads_of_reaches`). So what a parse does somewhere in the
middle is known as soon as it is known what the machine does from there.

The moments of a parse are inductive, but what a moment has to do with the machine depends on what
is still to be done there. `Design.Tracks` says it for a recipe that is being followed, by recursion
on the recipe: where it builds children or runs a constructor the machine is there too, and so on
with whatever comes of that. Runs of constructors that are over count as a whole, and for them there
is `Design.Agrees`.

Conversely a parse gets to the frames of containers as the table has it
(`Design.Describes.reaches_root`, `Design.Describes.reaches_container`), so that moments deep in a
parse can be named without running it.
-/

namespace FragmentParser.Design

variable {C F S Y E N W α : Type} [DecidableEq S] [DecidableEq Y] [Constructor C] [Diagnostic F]
  [Diagnostic S] [Diagnostic Y]

section Tracks

variable (d : Design C F S E N) (a : Assembly E N W) (p : Parser C F S Y N) (c₀ : Config F S W)

/-- From `c₀` the machine gets to where children are built in this session. -/
def Arrives (e : Session C F S Y) : Prop :=
  ∃ w, d.Comes a p.grammar (.inl c₀) (.inl ⟨e.stack, w, e.rest⟩)

/-- From `c₀` the machine gets to where constructor `c`, which is no root, is run in this session.
-/
def Enters (c : C) (s : Option S) (e : Session C F S Y) : Prop :=
  (∀ el, d.shape c ≠ .root el) ∧ ∃ w x xs, e.rest = x :: xs ∧
    d.Comes a p.grammar (.inl c₀) (enter d a c s e.stack w x xs)

/-- From `c₀` the machine gets to everything that the recipe does from this session on. -/
def Tracks : Recipe C F S Y N α → Session C F S Y → Prop
  | .done _, _ => True
  | .peek k, e => Tracks (k e.peek.1) e.peek.2
  | .take k, e => Tracks (k e.take.1) e.take.2
  | .inspect k, e => Tracks (k e.stack p.grammar.view) e
  | .children parent k, e => d.Arrives a p c₀ e ∧ ∀ bound bound' nodes ending e',
    Parser.buildChildren p.grammar (p.runConstructor bound) bound' (e.record (.children parent)) =
      some (nodes, ending, e') → Tracks (k nodes ending.outcome) e'
  | .child c s k, e => d.Enters a p c₀ c s e ∧ ∀ bound outcome e',
    p.runConstructor bound c s e = some (outcome, e') → Tracks (k outcome) e'

/-- What a moment of a parse has to do with the machine. -/
def Tracked : Parser.Moment C F S Y N → Session C F S Y → Prop
  | .following r, e => d.Tracks a p c₀ r e
  | .building, e => d.Arrives a p c₀ e
  | .judged (.construct c s), e => d.Enters a p c₀ c s (e.share c s)
  | .calling c s, e => d.Enters a p c₀ c s e
  | .judged (.finish _), _ | .returned _, _ => True

end Tracks

variable {d : Design C F S E N} {a : Assembly E N W} {p : Parser C F S Y N} {c₀ : Config F S W}
  {c : C} {s : Option S} {e e' : Session C F S Y}

/-! ### Recipes -/

theorem tracks_next_bind (f : F → Recipe C F S Y N α) {x : F} {xs : List F} (he : e.rest = x :: xs)
    (h : d.Tracks a p c₀ (f x) e.take.2) : d.Tracks a p c₀ (Recipe.next >>= f) e := by
  have hx : e.take.1 = some x := by
    rw [Session.take_fst, he]
    rfl
  show d.Tracks a p c₀ (Recipe.bind Recipe.next f) e
  rw [Recipe.next, Recipe.bind, Tracks, hx]
  exact h

theorem tracks_childrenOf_bind {parent : String} {f : List N → α} (h : d.Arrives a p c₀ e) :
    d.Tracks a p c₀ (Recipe.childrenOf parent >>= fun nodes ↦ pure (f nodes)) e := by
  refine ⟨h, fun _ _ nodes ending e' _ ↦ ?_⟩
  cases ending <;> trivial

theorem tracks_childOf_bind {f : Option N → Recipe C F S Y N α} (h : d.Enters a p c₀ c s e)
    (hf : ∀ {bound node e'}, p.runConstructor bound c s e = some (.ok node, e') →
      d.Tracks a p c₀ (f node) e') : d.Tracks a p c₀ (Recipe.childOf c s >>= f) e := by
  refine ⟨h, fun bound outcome e' hr ↦ ?_⟩
  rcases outcome with err | node
  · trivial
  · exact hf hr

/-! ### Constructors -/

section Agreement

variable (h : d.Describes p) (ha : a.Keeps d)

include h ha

/-- When the run of a constructor is over the machine builds children where the parser does. -/
theorem Enters.arrives (hc : d.Enters a p c₀ c s e) {bound : Nat} {node : Option N}
    (hr : p.runConstructor bound c s e = some (.ok node, e')) : d.Arrives a p c₀ e' := by
  obtain ⟨hne, w, x, xs, he, hcomes⟩ := hc
  obtain ⟨-, -, hnode⟩ := h.agrees_runConstructor ha hne hr he
  exact ⟨_, hcomes.trans (hnode w)⟩

/-- A constructor that the machine gets to is tracked from the beginning of its recipe. -/
theorem Enters.tracks (hc : d.Enters a p c₀ c s e) :
    d.Tracks a p c₀ (p.recipe c) (e.openFrame s) := by
  obtain ⟨hne, w, x, xs, he, hcomes⟩ := hc
  have hopen : (e.openFrame s).rest = x :: xs := he
  rw [h.recipe_eq]
  rcases hshape : d.shape c with el | make | start | ⟨start, first, item, s'⟩
  · exact absurd hshape (hne el)
  · exact tracks_next_bind _ hopen trivial
  · -- the machine has opened the element already
    refine tracks_next_bind _ hopen (tracks_childrenOf_bind
      ⟨a.openIn e.stack.below.length (start x) w, ?_⟩)
    rw [enter, hshape] at hcomes
    rw [Session.stack_take, Session.rest_take, hopen]
    exact hcomes
  · have hpeek : (e.openFrame s).peek.2.rest = x :: xs := (e.openFrame s).rest_peek.trans he
    have hx : (e.openFrame s).peek.1 = some x := by
      rw [Session.peek_fst, hopen]
      rfl
    show d.Tracks a p c₀ (Recipe.done (start (e.openFrame s).peek.1) >>= fun el ↦
      Recipe.childOf first s' >>= fun head ↦ Recipe.childrenOf d.parent >>= fun nodes ↦
        pure (some (d.finish ((head.toList ++ nodes).foldl d.append el)))) (e.openFrame s).peek.2
    rw [hx]
    rcases hstart : start (some x) with err | el
    · trivial
    · -- and here the frame of the first child as well
      have hfirst : d.Enters a p c₀ first s' (e.openFrame s).peek.2 := by
        refine ⟨fun e₁ hroot ↦ ?_, a.openIn e.stack.below.length el w, x, xs, hpeek, ?_⟩
        · rw [h.first hshape] at hroot
          cases hroot
        · have henter : enter d a first s' (e.openFrame s).peek.2.stack
              (a.openIn e.stack.below.length el w) x xs = enter d a c s e.stack w x xs := by
            simp only [enter, hshape, hstart, h.first hshape]
            rfl
          rw [henter]
          exact hcomes
      exact tracks_childOf_bind hfirst fun hr ↦ tracks_childrenOf_bind (hfirst.arrives h ha hr)

/-! ### Moments -/

/-- From the beginning with the root open the machine gets to every moment of the parse. -/
theorem Describes.tracked_of_reaches {el : E} {reader : Lookahead F}
    (hroot : d.shape p.grammar.initialConstructor = .root el) {n : Nat}
    {m : Parser.Moment C F S Y N} (hreach : p.Reaches reader n m e) :
    d.Tracked a p ⟨.root p.grammar.initialState, a.root el, reader.toList⟩ m e := by
  induction hreach with
  | root =>
    rw [h.recipe_eq, hroot]
    exact tracks_childrenOf_bind ⟨_, .refl⟩
  | peek _ ih | take _ ih | inspect _ ih | call _ ih => exact ih
  | build _ ih => exact ih.1
  | @judge n e _ ih =>
    obtain ⟨w, hcomes⟩ := ih
    have hj := e.judged p.grammar
    generalize e.judge p.grammar = verdict at hj ⊢
    obtain ⟨ending | ⟨c, s⟩, e₁⟩ := verdict
    · trivial
    · obtain ⟨x, xs, hne, hrest, hstep⟩ := exists_step_of_judged h.transition hj
      exact ⟨hne, w, x, xs, hrest, hcomes.tail ⟨_, rfl, hstep w⟩⟩
  | again _ hr _ ih => exact ih.arrives h ha hr
  | built _ hb ih => exact ih.2 _ _ _ _ _ hb
  | child _ ih => exact ih.1
  | enter _ ih => exact ih.tracks h ha
  | leave => trivial
  | resume _ hr ih => exact ih.2 _ _ _ hr

/-- **The machine passes through every building of children**, with the states and the fragments
that the parser has there. -/
theorem Describes.leads_of_reaches {el : E} {reader : Lookahead F}
    (hroot : d.shape p.grammar.initialConstructor = .root el) {n : Nat}
    (hreach : p.Reaches reader n .building e) :
    ∃ w, d.Leads a p.grammar ⟨.root p.grammar.initialState, a.root el, reader.toList⟩
      ⟨e.stack, w, e.rest⟩ := by
  obtain ⟨w, hcomes⟩ := h.tracked_of_reaches ha hroot hreach
  exact ⟨w, hcomes.leads⟩

end Agreement

/-! ### The frames of containers -/

section Frames

variable (h : d.Describes p)

include h

/-- The root builds children from the beginning. -/
theorem Describes.reaches_root {el : E} (hroot : d.shape p.grammar.initialConstructor = .root el)
    (reader : Lookahead F) :
    p.Reaches reader 0 .building
      ((Session.start reader p.grammar.initialState).record (.children d.parent)) := by
  have hstart : p.Reaches reader 0 (.following (p.recipe p.grammar.initialConstructor))
      (.start reader p.grammar.initialState) := .root
  rw [h.recipe_eq, hroot] at hstart
  exact hstart.build

/-- A container that has its frame to itself takes the fragment, and then builds children. -/
theorem Describes.reaches_container {reader : Lookahead F} {n : Nat} {x : F} {xs : List F} {y : Y}
    {s : S} {start : F → E} (hreach : p.Reaches reader n .building e) (he : e.rest = x :: xs)
    (ht : p.grammar.transition? e.stack x = some (y, .childIn c s))
    (hshape : d.shape c = .container start) (hframe : Constructor.frame c = .own) :
    ∃ e', p.Reaches reader (n + 1) .building e' ∧ e'.rest = xs ∧ e'.stack = e.stack.push s ∧
      e'.taken = e.taken + 1 := by
  have hjudged := hreach.judge
  rw [(Session.Judged.construct he ht).judge_eq] at hjudged
  generalize hshared : (e.resolved p.grammar x y (.childIn c s)).share c (some s) = e₁
  have hrest : e₁.rest = x :: xs := by
    rw [← hshared, Session.rest_share, Session.rest_resolved, he]
  have hstack : e₁.stack = e.stack := by
    rw [← hshared, Session.stack_share, hframe]
    rfl
  have hentered : p.Reaches reader (n + 1) (.following (Recipe.next >>= fun x ↦
      Recipe.childrenOf d.parent >>= fun nodes ↦
        pure (some (d.finish (nodes.foldl d.append (start x)))))) (e₁.openFrame (some s)) := by
    have hcalled := hjudged.call.enter
    rw [h.recipe_eq, hshape] at hcalled
    exact hshared ▸ hcalled
  have hfst : (e₁.openFrame (some s)).take.1 = some x := by
    rw [Session.take_fst, Session.rest_openFrame, hrest]
    rfl
  have htaken := Parser.Reaches.take hentered
  rw [hfst] at htaken
  refine ⟨_, Parser.Reaches.build htaken, ?_, ?_, ?_⟩
  · rw [Session.rest_record, Session.rest_take, Session.rest_openFrame, hrest]
    rfl
  · rw [Session.stack_record, Session.stack_take, Session.stack_openFrame, hstack]
    rfl
  · have hopen : (e₁.openFrame (some s)).rest = x :: xs := hrest
    rw [Session.taken_record, Session.taken_take_of_rest_cons hopen, Session.taken_openFrame,
      ← hshared, Session.taken_share]
    rfl

end Frames

end FragmentParser.Design
