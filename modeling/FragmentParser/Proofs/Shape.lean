import FragmentParser.Proofs.Progress

/-!
# The shapes of constructors

Recipes are arbitrary, but those of the bundled grammars have few **shapes**. The root builds
children and nothing else. A *leaf* takes one fragment. A *container* takes one fragment and then
builds children. A *series* takes no fragment of its own; it looks at the head fragment, leaves it
to a container that it runs itself for its first child, and then builds further children.

A `Design` gives every constructor a shape, together with the way in which an open element takes
children and becomes a node. `Design.Describes` says that a parser's recipes are those of the
design. What is proved about parsers with a design is proved once for all grammars that have one;
here it is that their parses end, with a bound of two frames for each fragment.
-/

namespace FragmentParser

variable {C F S Y E N : Type}

/-- What a constructor does with fragments; `E` is the type of elements that take children. -/
inductive Shape (C F S E N : Type) where
  /-- It takes no fragment and builds children for this element. -/
  | root (e : E)
  /-- It takes a fragment and may make a node of it. -/
  | leaf (make : F → Option N)
  /-- It takes a fragment, and builds children for the element that it makes of it. -/
  | container (start : F → E)
  /-- It looks at the next fragment. The element that it makes of it gets the node of the container
  `first` as its first child, and then builds further children. -/
  | series (start : Option F → Except ParseError E) (first : C) (item : F → E) (state : Option S)

/-- How many constructors a constructor of this shape runs before a fragment is taken. -/
def Shape.rank : Shape C F S E N → Nat
  | .root _ | .leaf _ | .container _ => 0
  | .series .. => 1

/-- The shapes of a grammar's constructors, and how elements are completed. -/
structure Design (C F S E N : Type) where
  /-- The type of parents as traces show it. -/
  parent : String
  /-- Add a child behind the others. -/
  append : E → N → E
  /-- The node of an element that has all its children. -/
  finish : E → N
  /-- The shape of each constructor. -/
  shape : C → Shape C F S E N

namespace Recipe

/-! ### Sequences of recipes -/

variable {α β : Type} {c : C} {n : Nat} {rank : C → Nat}

/-- A constructor that a sequence of recipes runs is run by one of them. -/
theorem Runs.of_bind {r : Recipe C F S Y N α} {f : α → Recipe C F S Y N β}
    (h : (r >>= f).Runs c) : r.Runs c ∨ ∃ a, (f a).Runs c := by
  change (r.bind f).Runs c at h
  induction r with
  | done outcome =>
    rcases outcome with e | a
    · cases h
    · exact .inr ⟨a, h⟩
  | peek k ih =>
    cases h with
    | peek x hx => exact (ih x hx).imp_left (.peek x)
  | take k ih =>
    cases h with
    | take x hx => exact (ih x hx).imp_left (.take x)
  | inspect k ih =>
    cases h with
    | inspect σ g hx => exact (ih σ g hx).imp_left (.inspect σ g)
  | children parent k ih =>
    cases h with
    | children nodes outcome hx => exact (ih nodes outcome hx).imp_left (.children nodes outcome)
  | child c' s k ih =>
    cases h with
    | here => exact .inl .here
    | child outcome hx => exact (ih outcome hx).imp_left (.child outcome)

theorem not_runs_done {outcome : Except ParseError α} :
    ¬(done outcome : Recipe C F S Y N α).Runs c := by
  intro h
  cases h

theorem not_runs_look : ¬(look : Recipe C F S Y N (Option F)).Runs c := by
  intro h
  cases h with
  | peek x hx => exact not_runs_done hx

theorem not_runs_next [Diagnostic S] : ¬(next : Recipe C F S Y N F).Runs c := by
  intro h
  cases h with
  | take x hx =>
    rcases x with _ | x
    · cases hx with
      | inspect σ g hx => cases hx
    · cases hx

theorem not_runs_childrenOf {parent : String} :
    ¬(childrenOf parent : Recipe C F S Y N (List N)).Runs c := by
  intro h
  cases h with
  | children nodes outcome hx => cases hx

theorem Runs.of_childOf {c' : C} {s : Option S}
    (h : (childOf c' s : Recipe C F S Y N (Option N)).Runs c) : c = c' := by
  cases h with
  | here => rfl
  | child outcome hx => exact absurd hx not_runs_done

/-- What begins with `Recipe.next` takes a fragment first. -/
theorem takesFirst_next [Diagnostic S] (f : F → Recipe C F S Y N α) :
    (next >>= f).TakesFirst rank n :=
  fun _ _ ↦ ⟨_, rfl⟩

end Recipe

namespace Design

variable [Diagnostic S]

/-- The recipe of a constructor of the given shape. -/
def recipe (d : Design C F S E N) : Shape C F S E N → Recipe C F S Y N (Option N)
  | .root e => do
    let nodes ← Recipe.childrenOf d.parent
    return some (d.finish (nodes.foldl d.append e))
  | .leaf make => do return make (← Recipe.next)
  | .container start => do
    let e := start (← Recipe.next)
    let nodes ← Recipe.childrenOf d.parent
    return some (d.finish (nodes.foldl d.append e))
  | .series start first _ s => do
    let e ← Recipe.done (start (← Recipe.look))
    let head ← Recipe.childOf first s
    let nodes ← Recipe.childrenOf d.parent
    return some (d.finish ((head.toList ++ nodes).foldl d.append e))

variable [DecidableEq S] [DecidableEq Y]

/-- The recipes of parser `p` are those of the design, the initial constructor alone is a root, and
the first child of a series is a container. -/
structure Describes (d : Design C F S E N) (p : Parser C F S Y N) : Prop where
  /-- Recipes follow shapes. -/
  recipe_eq : ∀ c, p.recipe c = d.recipe (d.shape c)
  /-- The initial constructor is a root. -/
  initial : ∃ e, d.shape p.grammar.initialConstructor = .root e
  /-- The table names no root. -/
  transition : ∀ {σ x y c s}, p.grammar.transition? σ x = some (y, .construct c s) →
    ∀ e, d.shape c ≠ .root e
  /-- A series runs a container. -/
  first : ∀ {c start c' item s}, d.shape c = .series start c' item s → d.shape c' = .container item

section Describes

variable {d : Design C F S E N} {p : Parser C F S Y N} (h : d.Describes p)

include h

/-- The recipe of a constructor runs another one only if it is a series. -/
theorem Describes.of_runs {c c' : C} (hc : (p.recipe c).Runs c') :
    ∃ start item s, d.shape c = .series start c' item s := by
  rw [h.recipe_eq] at hc
  rcases hshape : d.shape c with e | make | start | ⟨start, first, item, s⟩ <;> rw [hshape] at hc
  · rcases hc.of_bind with hc | ⟨nodes, hc⟩
    · exact absurd hc Recipe.not_runs_childrenOf
    · exact absurd hc Recipe.not_runs_done
  · rcases hc.of_bind with hc | ⟨x, hc⟩
    · exact absurd hc Recipe.not_runs_next
    · exact absurd hc Recipe.not_runs_done
  · rcases hc.of_bind with hc | ⟨x, hc⟩
    · exact absurd hc Recipe.not_runs_next
    · rcases hc.of_bind with hc | ⟨nodes, hc⟩
      · exact absurd hc Recipe.not_runs_childrenOf
      · exact absurd hc Recipe.not_runs_done
  · rcases hc.of_bind with hc | ⟨x, hc⟩
    · exact absurd hc Recipe.not_runs_look
    · rcases hc.of_bind with hc | ⟨e, hc⟩
      · exact absurd hc Recipe.not_runs_done
      · rcases hc.of_bind with hc | ⟨head, hc⟩
        · exact ⟨start, item, s, by rw [hc.of_childOf]⟩
        · rcases hc.of_bind with hc | ⟨nodes, hc⟩
          · exact absurd hc Recipe.not_runs_childrenOf
          · exact absurd hc Recipe.not_runs_done

/-- No constructor that a parse may run besides the initial one is a root. -/
theorem Describes.ne_root {c : C} (hc : p.Runnable c) (e : E) : d.shape c ≠ .root e := by
  have hfirst : ∀ {c c'}, (p.recipe c).Runs c' → d.shape c' ≠ .root e := by
    intro c c' hrun
    obtain ⟨start, item, s, hseries⟩ := h.of_runs hrun
    rw [h.first hseries]
    exact nofun
  cases hc with
  | transition ht => exact h.transition ht e
  | root hrun => exact hfirst hrun
  | recipe _ hrun => exact hfirst hrun

/-- All constructors but the root take a fragment first. -/
theorem Describes.takesFirst : p.TakesFirst (fun c ↦ (d.shape c).rank) 1 where
  rank_le c _ := by
    cases d.shape c <;> simp [Shape.rank]
  recipe c hc := by
    rw [h.recipe_eq]
    rcases hshape : d.shape c with e | make | start | ⟨start, first, item, s⟩
    · exact absurd hshape (h.ne_root hc e)
    · exact Recipe.takesFirst_next _
    · exact Recipe.takesFirst_next _
    · have hrank : (d.shape first).rank < (Shape.series start first item s : Shape C F S E N).rank := by
        rw [h.first hshape]
        exact Nat.zero_lt_one
      intro x
      show (Recipe.done (start x) >>= fun e ↦ Recipe.childOf first s >>= fun head ↦
        Recipe.childrenOf d.parent >>= fun nodes ↦
          pure (some (d.finish ((head.toList ++ nodes).foldl d.append e)))).TakesFirst _ _
      rcases start x with e | e
      · exact ⟨e, rfl⟩
      · exact ⟨hrank, fun e ↦ ⟨e, rfl⟩⟩

end Describes

end Design

end FragmentParser
