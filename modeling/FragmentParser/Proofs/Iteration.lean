import FragmentParser.Parser
import FragmentParser.Proofs.Verdict

/-!
# The iterations of one building of children

`Parser.buildChildren` recurses on a bound. `Parser.Built` is the same loop **as a relation**,
without the bound: an iteration ends the building, or runs a constructor and goes on. An induction
on it has four cases, one for each way an iteration can go, and in each the verdict on the head
fragment comes with its condition (`Session.Judged`).

Everything proved about one call of `Parser.buildChildren` is proved by such an induction, from what
is known of the constructors that it runs. Runs of constructors and whole parses are taken apart
beside it (`Parser.exists_follow_of_runConstructor`, `Parser.exists_follow_of_run`).
-/

namespace FragmentParser.Parser

variable {C F S Y N : Type} [DecidableEq S] [DecidableEq Y] [Constructor C]
  [Diagnostic F] [Diagnostic S] [Diagnostic Y]

/-- Building children from `d` yields the nodes and the ending and leads to the last session, given
how constructors are run. -/
inductive Built (g : Grammar C F S Y)
    (run : C → Option S → Session C F S Y → Reply C F S Y (Option N)) :
    Session C F S Y → List N → Ending S → Session C F S Y → Prop where
  /-- No constructor is run. -/
  | finish {d d' : Session C F S Y} {ending : Ending S} :
      d.Judged g (.finish ending) d' → Built g run d [] ending d'
  /-- A constructor fails. -/
  | childFailed {d d₁ d' : Session C F S Y} {c : C} {s : Option S} {e : ParseError} :
      d.Judged g (.construct c s) d₁ → run c s (d₁.share c s) = some (.error e, d') →
      Built g run d [] (.childFailed e) d'
  /-- A constructor takes no fragment and leaves the current state alone. -/
  | stalled {d d₁ d' : Session C F S Y} {c : C} {s : Option S} {node : Option N} :
      d.Judged g (.construct c s) d₁ → run c s (d₁.share c s) = some (.ok node, d') →
      d'.taken = d₁.taken → d'.state = d₁.state →
      Built g run d [] (.failed (.stalled (Constructor.name c) (text d₁.state))) d'
  /-- A constructor returns, and the building goes on. -/
  | next {d d₁ d₂ d' : Session C F S Y} {c : C} {s : Option S} {node : Option N}
      {nodes : List N} {ending : Ending S} :
      d.Judged g (.construct c s) d₁ → run c s (d₁.share c s) = some (.ok node, d₂) →
      ¬(d₂.taken = d₁.taken ∧ d₂.state = d₁.state) → Built g run d₂ nodes ending d' →
      Built g run d (node.toList ++ nodes) ending d'

/-- The loop with a bound is the loop without it, as long as the bound lasts. -/
theorem built_of_buildChildren {g : Grammar C F S Y}
    {run : C → Option S → Session C F S Y → Reply C F S Y (Option N)} {bound : Nat}
    {d d' : Session C F S Y} {nodes : List N} {ending : Ending S}
    (h : buildChildren g run bound d = some (nodes, ending, d')) :
    Built g run d nodes ending d' := by
  induction bound generalizing d nodes with
  | zero => simp [buildChildren] at h
  | succ bound ih =>
    rw [buildChildren] at h
    have hj := d.judged g
    -- the verdict is known by what it says about the session alone
    generalize d.judge g = verdict at h hj
    obtain ⟨_ | ⟨c, s⟩, d₁⟩ := verdict
    · cases h
      exact .finish hj
    · simp only at h hj
      rcases hr : run c s (d₁.share c s) with _ | ⟨e | node, d₂⟩
      · simp [hr] at h
      · simp only [hr] at h
        cases h
        exact .childFailed hj hr
      · simp only [hr] at h
        split at h
        · next hstall =>
          cases h
          exact .stalled hj hr hstall.1 hstall.2
        · next hstall =>
          rcases hb : buildChildren g run bound d₂ with _ | ⟨nodes', ending', d₃⟩
          · simp [hb] at h
          · simp only [hb] at h
            cases h
            exact .next hj hr hstall (ih hb)

variable {p : Parser C F S Y N} {bound : Nat} {d d' : Session C F S Y}

/-- The run of a constructor follows its recipe in a frame of its own. -/
theorem exists_follow_of_runConstructor {c : C} {s : Option S}
    {outcome : Except ParseError (Option N)}
    (h : p.runConstructor (bound + 1) c s d = some (outcome, d')) :
    ∃ e, (p.recipe c).follow p.grammar (buildChildren p.grammar (p.runConstructor bound) bound)
      (p.runConstructor bound) (d.openFrame s) = some (outcome, e) ∧ d' = e.closeFrame := by
  rw [runConstructor] at h
  split at h
  · cases h
  · next hf =>
    cases h
    exact ⟨_, hf, rfl⟩

/-- A parse follows the recipe of the initial constructor in the root frame, and fails if there is
no node. -/
theorem exists_follow_of_run {reader : Lookahead F} {outcome : Except ParseError N}
    (h : p.run bound reader = some (outcome, d)) :
    ∃ outcome', (p.recipe p.grammar.initialConstructor).follow p.grammar
        (buildChildren p.grammar (p.runConstructor bound) bound) (p.runConstructor bound)
        (.start reader p.grammar.initialState) = some (outcome', d) ∧
      outcome = outcome'.bind fun node ↦
        node.elim (.error (.emptyRoot (Constructor.name p.grammar.initialConstructor))) .ok := by
  rw [run] at h
  split at h
  · cases h
  all_goals
    next hf =>
      cases h
      exact ⟨_, hf, rfl⟩

end FragmentParser.Parser
