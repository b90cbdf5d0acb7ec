import FragmentParser.Parser

/-!
# The bound of a parse

The recursion of parses is on a bound, which is **no part of the meaning**: a parse that has an
outcome under some bound has the same outcome and the same session under every larger one
(`Parser.run_of_le`). So a parse can be said to *end* if it has an outcome under some bound, and
then it makes sense to speak of its outcome.
-/

namespace FragmentParser

variable {C F S Y N : Type} [DecidableEq S] [DecidableEq Y]

/-- Following a recipe answers as before when building children and running constructors answer as
before and perhaps more often. -/
theorem Recipe.follow_of_extends {α : Type} {g : Grammar C F S Y}
    {build build' : Session C F S Y → Harvest C F S Y N}
    {run run' : C → Option S → Session C F S Y → Reply C F S Y (Option N)}
    (hbuild : ∀ {d answer}, build d = some answer → build' d = some answer)
    (hrun : ∀ {c s d answer}, run c s d = some answer → run' c s d = some answer)
    {r : Recipe C F S Y N α} {d : Session C F S Y} {answer : Except ParseError α × Session C F S Y}
    (h : r.follow g build run d = some answer) : r.follow g build' run' d = some answer := by
  induction r generalizing d with
  | done _ => exact h
  | peek k ih =>
    rw [follow] at h ⊢
    exact ih _ h
  | take k ih =>
    rw [follow] at h ⊢
    exact ih _ h
  | inspect k ih =>
    rw [follow] at h ⊢
    exact ih _ _ h
  | children parent k ih =>
    rw [follow] at h ⊢
    rcases hb : build (d.record (.children parent)) with _ | ⟨nodes, ending, d'⟩
    · simp [hb] at h
    · rw [hbuild hb]
      simp only [hb] at h
      exact ih _ _ h
  | child c s k ih =>
    rw [follow] at h ⊢
    rcases hr : run c s d with _ | ⟨outcome, d'⟩
    · simp [hr] at h
    · rw [hrun hr]
      simp only [hr] at h
      exact ih _ h

namespace Parser

variable [Constructor C] [Diagnostic F] [Diagnostic S] [Diagnostic Y]

theorem buildChildren_of_le {g : Grammar C F S Y}
    {run run' : C → Option S → Session C F S Y → Reply C F S Y (Option N)}
    (hrun : ∀ {c s d answer}, run c s d = some answer → run' c s d = some answer)
    {bound bound' : Nat} (hle : bound ≤ bound') {d : Session C F S Y}
    {answer : List N × Ending S × Session C F S Y}
    (h : buildChildren g run bound d = some answer) :
    buildChildren g run' bound' d = some answer := by
  induction bound generalizing bound' d answer with
  | zero => cases h
  | succ bound ih =>
    -- the larger bound lasts for this iteration as well, and the induction is for the rest
    obtain ⟨bound', rfl⟩ : ∃ n, bound' = n + 1 := ⟨bound' - 1, by omega⟩
    rw [buildChildren] at h ⊢
    generalize d.judge g = verdict at h ⊢
    obtain ⟨_ | ⟨c, s⟩, d₁⟩ := verdict
    · exact h
    · simp only at h ⊢
      rcases hr : run c s (d₁.share c s) with _ | ⟨e | node, d₂⟩
      · simp [hr] at h
      · rw [hrun hr]
        simpa only [hr] using h
      · rw [hrun hr]
        simp only [hr] at h ⊢
        split at h
        · next hstall => rwa [if_pos hstall]
        · next hstall =>
          rw [if_neg hstall]
          rcases hb : buildChildren g run bound d₂ with _ | later
          · simp [hb] at h
          · rw [ih (by omega) hb]
            simpa only [hb] using h

theorem runConstructor_of_le {p : Parser C F S Y N} {bound bound' : Nat} (hle : bound ≤ bound')
    {c : C} {s : Option S} {d : Session C F S Y}
    {answer : Except ParseError (Option N) × Session C F S Y}
    (h : p.runConstructor bound c s d = some answer) :
    p.runConstructor bound' c s d = some answer := by
  induction bound generalizing bound' c s d answer with
  | zero => cases h
  | succ bound ih =>
    obtain ⟨bound', rfl⟩ : ∃ n, bound' = n + 1 := ⟨bound' - 1, by omega⟩
    rw [runConstructor] at h ⊢
    -- both bounds of the body are smaller by one: that of the constructors it runs by induction,
    -- and that of the loop, whose iterations run them
    have hrun : ∀ {c s d answer}, p.runConstructor bound c s d = some answer →
        p.runConstructor bound' c s d = some answer := fun h ↦ ih (by omega) h
    split at h
    · cases h
    · next hf =>
      rw [Recipe.follow_of_extends (buildChildren_of_le hrun (by omega)) hrun hf]
      exact h

/-- A larger bound changes nothing for a parse that has an outcome. -/
theorem run_of_le {p : Parser C F S Y N} {bound bound' : Nat} (hle : bound ≤ bound')
    {reader : Lookahead F} {answer : Except ParseError N × Session C F S Y}
    (h : p.run bound reader = some answer) : p.run bound' reader = some answer := by
  have hrun : ∀ {c s d answer}, p.runConstructor bound c s d = some answer →
      p.runConstructor bound' c s d = some answer := runConstructor_of_le hle
  simp only [run] at h ⊢
  rcases hf : (p.recipe p.grammar.initialConstructor).follow p.grammar
      (buildChildren p.grammar (p.runConstructor bound) bound) (p.runConstructor bound)
      (Session.start reader p.grammar.initialState) with _ | followed
  · simp [hf] at h
  · rw [Recipe.follow_of_extends (buildChildren_of_le hrun hle) hrun hf]
    simpa only [hf] using h

end Parser

end FragmentParser
