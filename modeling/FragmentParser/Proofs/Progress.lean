import FragmentParser.Proofs.Bound
import FragmentParser.Proofs.Verdict

/-!
# Parses that end

A parse ends if every constructor that it can run **takes a fragment first**: apart from looking
around, it begins by taking a fragment, or by running a constructor of lower rank, and if it got no
fragment in this way it gives up. What it does afterwards is free, and so are the rules, computed or
not, and the states.

The measure is the number of fragments to come, and among activities with equally many the rank.
With ranks up to `top`, one fragment can open `top + 1` frames at most, and what is left of a bound
after a frame was opened is still enough for the fragments that are left; so the bound of a parse of
`n` fragments is `(top + 1) * (n + 1)` (`Parser.ends_of_takesFirst`).
-/

namespace FragmentParser

variable {C F S Y N α : Type}

namespace Recipe

/-- Following the recipe may run constructor `c`. -/
inductive Runs (c : C) : Recipe C F S Y N α → Prop where
  | peek {k} (x : Option F) : (k x).Runs c → (Recipe.peek k).Runs c
  | take {k} (x : Option F) : (k x).Runs c → (Recipe.take k).Runs c
  | inspect {k} (σ : StateStack S) (g : Grammar.View C F S Y) :
      (k σ g).Runs c → (Recipe.inspect k).Runs c
  | children {parent k} (nodes : List N) (outcome : Except ParseError Unit) :
      (k nodes outcome).Runs c → (Recipe.children parent k).Runs c
  | here {s k} : (Recipe.child c s k).Runs c
  | child {c' s k} (outcome : Except ParseError (Option N)) :
      (k outcome).Runs c → (Recipe.child c' s k).Runs c

/-- The recipe of a constructor of rank `n` takes a fragment before it returns, has children built
or runs a constructor of its own rank or above. When there is no fragment to take, or the
constructor that it ran instead failed, the same holds of what follows; to fail is always fine. -/
def TakesFirst (rank : C → Nat) (n : Nat) : Recipe C F S Y N α → Prop
  | .done outcome => ∃ e, outcome = .error e
  | .peek k => ∀ x, (k x).TakesFirst rank n
  | .take k => (k none).TakesFirst rank n
  | .inspect k => ∀ σ g, (k σ g).TakesFirst rank n
  | .children _ _ => False
  | .child c _ k => rank c < n ∧ ∀ e, (k (.error e)).TakesFirst rank n

end Recipe

namespace Session

/-- From session `d` an activity ends, and leaves no more fragments than there were. -/
def Ends {β : Type} (d : Session C F S Y) (answer : Option (β × Session C F S Y)) : Prop :=
  ∃ b d', answer = some (b, d') ∧ d'.rest.length ≤ d.rest.length

/-- Moreover, unless it fails, it has taken a fragment. -/
def EndsTaking {β : Type} (d : Session C F S Y)
    (answer : Option (Except ParseError β × Session C F S Y)) : Prop :=
  ∃ outcome d', answer = some (outcome, d') ∧ d'.rest.length ≤ d.rest.length ∧
    ∀ b, outcome = .ok b → d'.rest.length < d.rest.length

theorem EndsTaking.ends {β : Type} {d : Session C F S Y}
    {answer : Option (Except ParseError β × Session C F S Y)} (h : d.EndsTaking answer) :
    d.Ends answer := by
  obtain ⟨outcome, d', ha, hle, -⟩ := h
  exact ⟨outcome, d', ha, hle⟩

/-- An activity that begins after others have taken fragments away ends all the more. -/
theorem Ends.of_le {β : Type} {d d₁ : Session C F S Y} {answer : Option (β × Session C F S Y)}
    (h : d₁.Ends answer) (hle : d₁.rest.length ≤ d.rest.length) : d.Ends answer := by
  obtain ⟨b, d', ha, hle'⟩ := h
  exact ⟨b, d', ha, Nat.le_trans hle' hle⟩

end Session

section Follow

variable [DecidableEq S] [DecidableEq Y]
  {g : Grammar C F S Y} {build : Session C F S Y → Option (List N × Ending S × Session C F S Y)}
  {run : C → Option S → Session C F S Y → Reply C F S Y (Option N)} {Runnable : C → Prop} {m : Nat}

/-- Following a recipe ends, if building children and running its constructors do. -/
theorem Recipe.ends_follow
    (hbuild : ∀ d : Session C F S Y, d.rest.length ≤ m →
      ∃ nodes ending d', build d = some (nodes, ending, d') ∧ d'.rest.length ≤ d.rest.length)
    (hrun : ∀ (c : C) s (d : Session C F S Y), Runnable c → d.rest.length ≤ m →
      d.Ends (run c s d))
    {r : Recipe C F S Y N α} (hr : ∀ c, r.Runs c → Runnable c) {d : Session C F S Y}
    (hd : d.rest.length ≤ m) : d.Ends (r.follow g build run d) := by
  induction r generalizing d with
  | done outcome => exact ⟨outcome, d, rfl, Nat.le_refl _⟩
  | peek k ih =>
    have h := ih d.peek.1 (fun c hc ↦ hr c (.peek _ hc)) (d := d.peek.2) (by simpa using hd)
    exact h.of_le (by simp)
  | take k ih =>
    have hle : d.take.2.rest.length ≤ d.rest.length := by simp
    exact (ih d.take.1 (fun c hc ↦ hr c (.take _ hc)) (Nat.le_trans hle hd)).of_le hle
  | inspect k ih => exact ih _ _ (fun c hc ↦ hr c (.inspect _ _ hc)) hd
  | children parent k ih =>
    obtain ⟨nodes, ending, d', hb, hle⟩ := hbuild (d.record (.children parent)) hd
    rw [follow, hb]
    exact (ih nodes ending.outcome (fun c hc ↦ hr c (.children _ _ hc)) (Nat.le_trans hle hd)).of_le hle
  | child c s k ih =>
    obtain ⟨outcome, d', hc, hle⟩ := hrun c s d (hr c .here) hd
    rw [follow, hc]
    exact (ih outcome (fun c hc ↦ hr c (.child _ hc)) (Nat.le_trans hle hd)).of_le hle

/-- Following a recipe that takes a fragment first ends and has taken one, if constructors of lower
rank end and have taken one, and if recipes end that are followed with fewer fragments to come. -/
theorem Recipe.endsTaking_follow {rank : C → Nat} {n : Nat}
    (hlower : ∀ (c : C) s (d : Session C F S Y), Runnable c → rank c < n → d.rest.length ≤ m →
      d.EndsTaking (run c s d))
    (hafter : ∀ (r : Recipe C F S Y N α), (∀ c, r.Runs c → Runnable c) →
      ∀ d : Session C F S Y, d.rest.length < m → d.Ends (r.follow g build run d))
    {r : Recipe C F S Y N α} (hr : ∀ c, r.Runs c → Runnable c) (hfirst : r.TakesFirst rank n)
    {d : Session C F S Y} (hd : d.rest.length ≤ m) : d.EndsTaking (r.follow g build run d) := by
  induction r generalizing d with
  | done outcome =>
    obtain ⟨e, rfl⟩ := hfirst
    exact ⟨.error e, d, rfl, Nat.le_refl _, fun b hb ↦ by cases hb⟩
  | peek k ih =>
    -- looking takes nothing, so the recipe still has to take a fragment
    have h := ih d.peek.1 (fun c hc ↦ hr c (.peek _ hc)) (hfirst _) (d := d.peek.2)
      (by simpa using hd)
    rw [follow]
    simpa only [Session.EndsTaking, Session.rest_peek] using h
  | take k ih =>
    rcases hrest : d.rest with _ | ⟨x, xs⟩
    · have hx : d.take.1 = none := by rw [Session.take_fst, hrest]; rfl
      -- there is none to take, and what follows has to fail or to begin again
      have hd' : d.take.2.rest = d.rest := by rw [Session.rest_take, hrest]; rfl
      have h := ih none (fun c hc ↦ hr c (.take _ hc)) hfirst (d := d.take.2) (by rw [hd']; exact hd)
      rw [follow, hx]
      simpa only [Session.EndsTaking, hd'] using h
    · have hd' : d.take.2.rest.length + 1 = d.rest.length := by
        rw [Session.rest_take, hrest]; rfl
      -- a fragment is taken, and whatever follows has fewer to come
      obtain ⟨outcome, d₂, hf, hle⟩ :=
        hafter (k d.take.1) (fun c hc ↦ hr c (.take _ hc)) d.take.2 (by omega)
      exact ⟨outcome, d₂, hf, by omega, fun _ _ ↦ by omega⟩
  | inspect k ih => exact ih _ _ (fun c hc ↦ hr c (.inspect _ _ hc)) (hfirst _ _) hd
  | children parent k => exact hfirst.elim
  | child c s k ih =>
    obtain ⟨hrank, herror⟩ := hfirst
    obtain ⟨outcome, d₁, hc, hle, hlt⟩ := hlower c s d (hr c .here) hrank hd
    rw [follow, hc]
    rcases outcome with e | node
    · obtain ⟨outcome, d₂, hf, hle', hlt'⟩ :=
        ih (.error e) (fun c hc ↦ hr c (.child _ hc)) (herror e) (Nat.le_trans hle hd)
      exact ⟨outcome, d₂, hf, Nat.le_trans hle' hle, fun b hb ↦ Nat.lt_of_lt_of_le (hlt' b hb) hle⟩
    · have hlt := hlt node rfl
      obtain ⟨outcome, d₂, hf, hle'⟩ :=
        hafter (k (.ok node)) (fun c hc ↦ hr c (.child _ hc)) d₁ (by omega)
      exact ⟨outcome, d₂, hf, by omega, fun _ _ ↦ by omega⟩

end Follow

namespace Parser

variable [DecidableEq S] [DecidableEq Y]

/-- The constructors that a parse may run besides the initial one as the root: those that the table
names for some fragment under some stack, and those that the recipe of the initial constructor or of
one of these runs. -/
inductive Runnable (p : Parser C F S Y N) : C → Prop where
  | transition {σ x y c s} : p.grammar.transition? σ x = some (y, .construct c s) → p.Runnable c
  | root {c} : (p.recipe p.grammar.initialConstructor).Runs c → p.Runnable c
  | recipe {c c'} : p.Runnable c → (p.recipe c).Runs c' → p.Runnable c'

variable [Constructor C] [Diagnostic F] [Diagnostic S] [Diagnostic Y]

/-- Building children ends, if running a constructor ends and takes a fragment unless it fails. -/
theorem ends_buildChildren {p : Parser C F S Y N} {m : Nat}
    {run : C → Option S → Session C F S Y → Reply C F S Y (Option N)}
    (hrun : ∀ (c : C) s (d : Session C F S Y), p.Runnable c → d.rest.length ≤ m →
      d.EndsTaking (run c s d))
    {bound : Nat} {d : Session C F S Y} (hd : d.rest.length ≤ m) (hbound : d.rest.length < bound) :
    ∃ nodes ending d', buildChildren p.grammar run bound d = some (nodes, ending, d') ∧
      d'.rest.length ≤ d.rest.length := by
  -- on the bound, which every iteration lowers by one and the fragments to come by one at least
  induction bound generalizing d with
  | zero => omega
  | succ bound ih =>
    rw [buildChildren]
    have hj := d.judged p.grammar
    generalize d.judge p.grammar = verdict at hj ⊢
    obtain ⟨ending | ⟨c, s⟩, d₁⟩ := verdict
    · exact ⟨[], ending, d₁, rfl, Nat.le_of_eq (by rw [hj.rest_eq])⟩
    · have hrest : d₁.rest = d.rest := hj.rest_eq
      obtain ⟨x, xs, y, -, ht, -⟩ := hj.exists_resolved
      obtain ⟨outcome, d₂, hc, hle, hlt⟩ :=
        hrun c s (d₁.share c s) (.transition ht) (by simpa [hrest] using hd)
      rw [Session.rest_share, hrest] at hle hlt
      rcases outcome with e | node
      · exact ⟨[], .childFailed e, d₂, by simp only [hc], hle⟩
      · have hlt := hlt node rfl
        obtain ⟨nodes, ending, d₃, hb, hle'⟩ := ih (d := d₂) (by omega) (by omega)
        by_cases hstall : d₂.taken = d₁.taken ∧ d₂.state = d₁.state
        · exact ⟨[], .failed (.stalled (Constructor.name c) (text d₁.state)), d₂,
            by simp only [hc, if_pos hstall], hle⟩
        · exact ⟨node.toList ++ nodes, ending, d₃, by simp only [hc, if_neg hstall, hb],
            Nat.le_trans hle' hle⟩

/-- Every runnable constructor takes a fragment first, with respect to ranks up to `top`. -/
structure TakesFirst (p : Parser C F S Y N) (rank : C → Nat) (top : Nat) : Prop where
  /-- The ranks are finitely many. -/
  rank_le : ∀ c, p.Runnable c → rank c ≤ top
  /-- Apart from looking around, a recipe begins with a fragment or a lower rank. -/
  recipe : ∀ c, p.Runnable c → (p.recipe c).TakesFirst rank (rank c)

section Rank

variable {p : Parser C F S Y N} {rank : C → Nat} {top : Nat} (hp : p.TakesFirst rank top)

include hp

/-- A run of a constructor ends, and has taken a fragment unless it fails. -/
theorem endsTaking_runConstructor {m : Nat} {c : C} (hc : p.Runnable c) {s : Option S}
    {d : Session C F S Y} (hd : d.rest.length ≤ m) {bound : Nat}
    (hbound : (top + 1) * m + rank c < bound) : d.EndsTaking (p.runConstructor bound c s d) := by
  -- on the fragments to come, and among as many on the rank
  induction m using Nat.strongRecOn generalizing c s d bound with
  | ind m ih =>
    induction hn : rank c using Nat.strongRecOn generalizing c s d bound with
    | ind n ihrank =>
      obtain ⟨bound, rfl⟩ : ∃ b, bound = b + 1 := ⟨bound - 1, by omega⟩
      have hfollow : (d.openFrame s).EndsTaking ((p.recipe c).follow p.grammar
          (buildChildren p.grammar (p.runConstructor bound) bound) (p.runConstructor bound)
          (d.openFrame s)) := by
        refine Recipe.endsTaking_follow (m := m) ?_ ?_ (fun c' hc' ↦ Runnable.recipe hc hc')
          (hp.recipe c hc) hd
        · intro c' s' d' hc' hlt hd'
          exact ihrank (rank c') (hn ▸ hlt) hc' hd' (by omega) rfl
        · -- behind the first fragment the rest of the bound covers every rank
          intro r hr d' hd'
          obtain ⟨m, rfl⟩ : ∃ k, m = k + 1 := ⟨m - 1, by omega⟩
          have hrun : ∀ (c' : C) s' (d' : Session C F S Y), p.Runnable c' → d'.rest.length ≤ m →
              d'.EndsTaking (p.runConstructor bound c' s' d') := by
            intro c' s' d' hc' hle
            have hrank := hp.rank_le c' hc'
            exact ih m (Nat.lt_succ_self m) hc' hle (by rw [Nat.mul_succ] at hbound; omega)
          have hm : m < bound := by
            have hle : 1 * (m + 1) ≤ (top + 1) * (m + 1) := Nat.mul_le_mul_right _ (by omega)
            omega
          refine Recipe.ends_follow (m := m) (fun d hd ↦ ends_buildChildren hrun hd (by omega))
            (fun c' s' d' hc' hle ↦ (hrun c' s' d' hc' hle).ends) hr (by omega)
      obtain ⟨outcome, d', hf, hle, hlt⟩ := hfollow
      exact ⟨outcome, d'.closeFrame, by rw [runConstructor, hf], hle, hlt⟩

/-- **Termination.** With enough of a bound every parse of every input has an outcome. -/
theorem exists_run_of_takesFirst (xs : List F) :
    ∃ outcome d, ∀ bound, (top + 1) * (xs.length + 1) ≤ bound →
      p.run bound (.ofList xs) = some (outcome, d) := by
  have hrun : ∀ (c : C) s (d : Session C F S Y), p.Runnable c → d.rest.length ≤ xs.length →
      d.EndsTaking (p.runConstructor ((top + 1) * (xs.length + 1)) c s d) := by
    intro c s d hc hd
    have hrank := hp.rank_le c hc
    exact endsTaking_runConstructor hp hc hd (by rw [Nat.mul_succ]; omega)
  have hlt : xs.length < (top + 1) * (xs.length + 1) := by
    have hle : 1 * (xs.length + 1) ≤ (top + 1) * (xs.length + 1) :=
      Nat.mul_le_mul_right _ (by omega)
    omega
  obtain ⟨outcome, d, hf, -⟩ := Recipe.ends_follow (g := p.grammar) (m := xs.length)
    (fun d hd ↦ ends_buildChildren hrun hd (Nat.lt_of_le_of_lt hd hlt))
    (fun c s d hc hle ↦ (hrun c s d hc hle).ends)
    (r := p.recipe p.grammar.initialConstructor) (fun c hc ↦ Runnable.root hc)
    (d := .start (.ofList xs) p.grammar.initialState) (by simp)
  have hanswer : ∃ outcome d,
      p.run ((top + 1) * (xs.length + 1)) (.ofList xs) = some (outcome, d) := by
    simp only [run, hf]
    rcases outcome with e | _ | node
    · exact ⟨_, _, rfl⟩
    · exact ⟨_, _, rfl⟩
    · exact ⟨_, _, rfl⟩
  obtain ⟨outcome, d, h⟩ := hanswer
  exact ⟨outcome, d, fun bound hle ↦ run_of_le hle h⟩

end Rank

end Parser

end FragmentParser
