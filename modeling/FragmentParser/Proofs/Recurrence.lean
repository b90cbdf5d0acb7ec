import FragmentParser.Blueprint
import FragmentParser.Proofs.Stall
import Mathlib.Data.Fintype.Pigeonhole
import Mathlib.Order.WellFounded

/-!
# Buildings that do not end

The check for stalled iterations compares the beginning of **one** iteration with its end. It does
not see that a building comes back to where it was after several iterations, each of which takes
nothing and moves the frame to another state. Such a building never ends, for it goes by the stack
and the fragments to come alone (`Parser.Recurs.not_finishes`), and two states with one shared
constructor are enough for one.

There are no other ways for it not to end, if the constructors that it runs return. The fragments
are taken from the front, and from some iteration on no more are taken; the states below are never
touched; so what each iteration from there on changes, as the check demands, is the current state
(`Parser.Endless.exists_idles`). With finitely many states one of these comes again, and then a
building ends **if and only if no two of its iterations begin alike**.
-/

namespace FragmentParser

open Relation

variable {C F S Y N : Type} [DecidableEq S] [DecidableEq Y] [Constructor C] [Diagnostic F]
  [Diagnostic S] [Diagnostic Y]

namespace Parser

/-- Building children from `d` has an outcome. -/
def Finishes (p : Parser C F S Y N) (d : Session C F S Y) : Prop :=
  ∃ bound n answer, buildChildren p.grammar (p.runConstructor bound) n d = some answer

/-- All constructors that the building of children from `d` runs have outcomes. -/
def RunsReturn (p : Parser C F S Y N) (d : Session C F S Y) : Prop :=
  ∀ {e}, ReflTransGen p.GoesOn d e → ∀ {c s e₁}, e.Judged p.grammar (.construct c s) e₁ →
    ∃ bound answer, p.runConstructor bound c s (e₁.share c s) = some answer

/-- Two iterations of the building of children from `d` begin alike. -/
def Recurs (p : Parser C F S Y N) (d : Session C F S Y) : Prop :=
  ∃ e e', ReflTransGen p.GoesOn d e ∧ TransGen p.GoesOn e e' ∧ e'.Alike e

/-- The building of children from `d` has an iteration for every number. -/
structure Endless (p : Parser C F S Y N) (d : Session C F S Y) (f : ℕ → Session C F S Y) :
    Prop where
  /-- The first one begins with `d`. -/
  zero : f 0 = d
  /-- Each one is followed by the next. -/
  goesOn : ∀ k, p.GoesOn (f k) (f (k + 1))

/-- From iteration `m` on nothing but the current state changes, and it changes each time. -/
structure Idles (f : ℕ → Session C F S Y) (m : ℕ) : Prop where
  /-- No fragment is taken. -/
  taken_eq : ∀ k, m ≤ k → (f k).taken = (f m).taken
  /-- The fragments to come are the same. -/
  rest_eq : ∀ k, m ≤ k → (f k).rest = (f m).rest
  /-- The states of the enclosing frames are the same. -/
  below_eq : ∀ k, m ≤ k → (f k).stack.below = (f m).stack.below
  /-- The current state is another one. -/
  state_ne : ∀ k, m ≤ k → (f (k + 1)).state ≠ (f k).state

variable {p : Parser C F S Y N} {d d' e : Session C F S Y}

/-! ### One iteration -/

namespace Iteration

variable {bound : Nat} {x : F} {y : Y} {c : C} {s : Option S} {node : Option N}

/-- The verdict of an iteration is the only one. -/
theorem judged_eq (h : p.Iteration bound x y c s node d d') {v : Verdict C S}
    {d₁ : Session C F S Y} (hj : d.Judged p.grammar v d₁) :
    v = .construct c s ∧ d₁ = d.resolved p.grammar x y (.construct c s) :=
  Prod.mk.inj (hj.judge_eq.symm.trans h.judged.judge_eq)

/-- Under whatever bound, its constructor returns nothing else. -/
theorem run_eq (h : p.Iteration bound x y c s node d d') {bound' : Nat} {c' : C} {s' : Option S}
    {d₁ : Session C F S Y} {answer : Except ParseError (Option N) × Session C F S Y}
    (hj : d.Judged p.grammar (.construct c' s') d₁)
    (hr : p.runConstructor bound' c' s' (d₁.share c' s') = some answer) :
    answer = (.ok node, d') := by
  obtain ⟨hv, rfl⟩ := h.judged_eq hj
  obtain ⟨rfl, rfl⟩ := Verdict.construct.inj hv
  have hleft := runConstructor_of_le (Nat.le_max_left bound' bound) hr
  have hright := runConstructor_of_le (Nat.le_max_right bound' bound) h.run
  exact Option.some.inj (hleft.symm.trans hright)

/-- An iteration that comes back to where it began is answered as stalled. -/
theorem buildChildren_of_alike (h : p.Iteration bound x y c s node d d') (hback : d'.Alike d)
    (n : Nat) : buildChildren p.grammar (p.runConstructor bound) (n + 1) d =
      some ([], .failed (.stalled (Constructor.name c) (text d.state)), d') := by
  rw [buildChildren, h.judged.judge_eq]
  simp only [h.run]
  exact if_pos (h.alike_iff.1 hback)

/-- After any other iteration the building goes on. -/
theorem buildChildren_of_not_alike (h : p.Iteration bound x y c s node d d') (hne : ¬d'.Alike d)
    (n : Nat) : buildChildren p.grammar (p.runConstructor bound) (n + 1) d =
      match buildChildren p.grammar (p.runConstructor bound) n d' with
      | none => none
      | some (nodes, ending, d'') => some (node.toList ++ nodes, ending, d'') := by
  rw [buildChildren, h.judged.judge_eq]
  simp only [h.run]
  exact if_neg fun hstall ↦ hne (h.alike_iff.2 hstall)

/-- A larger bound makes no other iteration. -/
theorem of_le (h : p.Iteration bound x y c s node d d') {bound' : Nat} (hle : bound ≤ bound') :
    p.Iteration bound' x y c s node d d' :=
  ⟨h.head, h.transition, runConstructor_of_le hle h.run⟩

end Iteration

namespace GoesOn

theorem not_alike (h : p.GoesOn d d') : ¬d'.Alike d := (goesOn_iff.1 h).2

/-- There is one way to go on. -/
theorem unique {d'' : Session C F S Y} (h : p.GoesOn d d') (h' : p.GoesOn d d'') : d' = d'' := by
  obtain ⟨⟨b, x, y, c, s, node, hi⟩, -⟩ := h
  obtain ⟨⟨b', x', y', c', s', node', hi'⟩, -⟩ := h'
  exact (Prod.mk.inj (hi'.run_eq hi.judged hi.run)).2

/-- A session that is alike goes on in the same way. -/
theorem exists_alike (h : p.GoesOn d d') (he : d.Alike e) :
    ∃ e', p.GoesOn e e' ∧ d'.Alike e' := by
  rw [goesOn_iff] at h
  obtain ⟨⟨b, x, y, c, s, node, hi⟩, hne⟩ := h
  obtain ⟨e', hi', hde⟩ := hi.exists_inStep he.inStep
  refine ⟨e', goesOn_iff.2 ⟨⟨b, x, y, c, s, node, hi'⟩, fun hback ↦ hne ?_⟩, hde.alike⟩
  exact (hde.alike.trans hback).trans he.symm

end GoesOn

/-- Building children from `d` has an outcome if the verdict ends it. -/
theorem finishes_of_judged {ending : Ending S} (hj : d.Judged p.grammar (.finish ending) d') :
    p.Finishes d := by
  refine ⟨0, 1, ([], ending, d'), ?_⟩
  rw [buildChildren, hj.judge_eq]

/-- It has one if the constructor fails. -/
theorem finishes_of_error {d₁ : Session C F S Y} {bound : Nat} {c : C} {s : Option S}
    {err : ParseError} (hj : d.Judged p.grammar (.construct c s) d₁)
    (hr : p.runConstructor bound c s (d₁.share c s) = some (.error err, d')) : p.Finishes d := by
  refine ⟨bound, 1, ([], .childFailed err, d'), ?_⟩
  rw [buildChildren, hj.judge_eq]
  simp only [hr]

/-- It has one if it goes on to a building that has one. -/
theorem finishes_of_goesOn (h : p.GoesOn d d') (hd' : p.Finishes d') : p.Finishes d := by
  rw [goesOn_iff] at h
  obtain ⟨⟨b, x, y, c, s, node, hi⟩, hne⟩ := h
  obtain ⟨b', n, ⟨nodes, ending, d''⟩, hb⟩ := hd'
  -- a bound that is enough for this iteration and for the others
  refine ⟨max b b', n + 1, (node.toList ++ nodes, ending, d''), ?_⟩
  rw [(hi.of_le (Nat.le_max_left b b')).buildChildren_of_not_alike hne,
    buildChildren_of_le (runConstructor_of_le (Nat.le_max_right b b')) (Nat.le_refl n) hb]

/-! ### Buildings that end -/

/-- When a building has an outcome, its iterations come to an end. -/
theorem Built.acc {bound : Nat} {nodes : List N} {ending : Ending S}
    (h : Built p.grammar (p.runConstructor bound) d nodes ending d') :
    Acc (fun e' e ↦ p.GoesOn e e') d := by
  induction h with
  | finish hj =>
    refine ⟨_, fun e ⟨⟨b, x, y, c, s, node, hi⟩, _⟩ ↦ ?_⟩
    obtain ⟨hv, -⟩ := hi.judged_eq hj
    cases hv
  | childFailed hj hr =>
    refine ⟨_, fun e ⟨⟨b, x, y, c, s, node, hi⟩, _⟩ ↦ ?_⟩
    have hfailed := hi.run_eq hj hr
    cases hfailed
  | stalled hj hr htaken hstate =>
    obtain ⟨x, y, hi, rfl⟩ := Iteration.of_judged hj hr
    refine ⟨_, fun e ⟨⟨b, x', y', c', s', node', hi'⟩, hgoes⟩ ↦ ?_⟩
    obtain ⟨-, rfl⟩ := Prod.mk.inj (hi'.run_eq hj hr)
    exact absurd ⟨htaken, hstate⟩ hgoes
  | next hj hr hgoes _ ih =>
    obtain ⟨x, y, hi, rfl⟩ := Iteration.of_judged hj hr
    refine ⟨_, fun e h ↦ ?_⟩
    obtain rfl := GoesOn.unique ⟨⟨_, x, y, _, _, _, hi⟩, hgoes⟩ h
    exact ih

theorem Finishes.acc (h : p.Finishes d) : Acc (fun e' e ↦ p.GoesOn e e') d := by
  obtain ⟨bound, n, ⟨nodes, ending, d'⟩, hb⟩ := h
  exact (built_of_buildChildren hb).acc

/-- When the iterations of a building come to an end and its constructors return, it has an
outcome. -/
theorem RunsReturn.finishes (hruns : p.RunsReturn d) (h : Acc (fun e' e ↦ p.GoesOn e e') d) :
    p.Finishes d := by
  induction h with
  | intro d _ ih =>
    have hj := d.judged p.grammar
    rcases hv : d.judge p.grammar with ⟨ending | ⟨c, s⟩, d₁⟩ <;> rw [hv] at hj
    · exact finishes_of_judged hj
    · obtain ⟨b, ⟨err | node, d'⟩, hr⟩ := hruns .refl hj
      · exact finishes_of_error hj hr
      · obtain ⟨x, y, hi, -⟩ := Iteration.of_judged hj hr
        by_cases hback : d'.Alike d
        · exact ⟨b, 1, _, hi.buildChildren_of_alike hback 0⟩
        · have hgoes : p.GoesOn d d' := goesOn_iff.2 ⟨⟨b, x, y, c, s, node, hi⟩, hback⟩
          exact finishes_of_goesOn hgoes (ih d' hgoes fun hreach ↦ hruns (.head hgoes hreach))

/-! ### Buildings that come back -/

theorem exists_alike_of_transGen (h : TransGen p.GoesOn d d') (he : d.Alike e) :
    ∃ e', TransGen p.GoesOn e e' ∧ d'.Alike e' := by
  induction h with
  | single h =>
    obtain ⟨e', he', ha⟩ := h.exists_alike he
    exact ⟨e', .single he', ha⟩
  | tail _ h ih =>
    obtain ⟨e', he', ha⟩ := ih
    obtain ⟨e'', he'', ha'⟩ := h.exists_alike ha
    exact ⟨e'', he'.tail he'', ha'⟩

/-- The iterations of a building in which two begin alike do not come to an end. -/
theorem not_acc_of_transGen (h : TransGen p.GoesOn d d') (hback : d'.Alike d) :
    ¬Acc (fun e' e ↦ p.GoesOn e e') d := by
  -- from every session that is alike the building comes to another one
  have hnone : ∀ e, Acc (TransGen fun e' e ↦ p.GoesOn e e') e → ¬d.Alike e := by
    intro e hacc
    induction hacc with
    | intro e _ ih =>
      intro he
      obtain ⟨e', hreach, ha⟩ := exists_alike_of_transGen h he
      exact ih e' hreach.swap (hback.symm.trans ha)
  exact fun hacc ↦ hnone d hacc.transGen (.refl d)

/-- **A building that comes back never ends.** -/
theorem Recurs.not_finishes (h : p.Recurs d) : ¬p.Finishes d := by
  obtain ⟨e, e', hreach, hloop, hback⟩ := h
  intro hfin
  have hacc : ∀ {e}, ReflTransGen p.GoesOn d e → Acc (fun e' e ↦ p.GoesOn e e') e := by
    intro e hreach
    induction hreach with
    | refl => exact hfin.acc
    | tail _ hgoes ih => exact ih.inv hgoes
  exact not_acc_of_transGen hloop hback (hacc hreach)

/-! ### Buildings that go on forever -/

/-- What later iterations leave as it is. -/
theorem advances_of_reflTransGen (h : ReflTransGen p.GoesOn d e) :
    d.Advances e ∧ e.stack.below = d.stack.below := by
  induction h with
  | refl => exact ⟨.of_eq rfl rfl, rfl⟩
  | tail _ hgoes ih =>
    obtain ⟨⟨b, x, y, c, s, node, hi⟩, -⟩ := hgoes
    obtain ⟨hadvances, hbelow⟩ := ih
    exact ⟨hadvances.trans hi.advances, hi.below_eq.trans hbelow⟩

namespace Endless

variable {f : ℕ → Session C F S Y}

theorem reflTransGen (h : p.Endless d f) {i j : ℕ} (hij : i ≤ j) :
    ReflTransGen p.GoesOn (f i) (f j) :=
  Nat.le_induction .refl (fun k _ ih ↦ ih.tail (h.goesOn k)) j hij

/-- **A building that goes on forever does nothing in the end** but change the current state: an
iteration at which the fewest fragments are left is one from which on it does so. -/
theorem exists_idles (h : p.Endless d f) : ∃ m, Idles f m := by
  let left : ℕ → ℕ := fun k ↦ (f k).rest.length
  obtain ⟨m, hm⟩ : ∃ m, ∀ k, left m ≤ left k := ⟨_, fun k ↦ Function.argmin_le left k⟩
  have hrest : ∀ k, m ≤ k → (f k).rest = (f m).rest := by
    intro k hk
    have hsuffix := (advances_of_reflTransGen (h.reflTransGen hk)).1.suffix
    exact hsuffix.eq_of_length (Nat.le_antisymm hsuffix.length_le (hm k))
  have htaken : ∀ k, m ≤ k → (f k).taken = (f m).taken := by
    intro k hk
    exact (advances_of_reflTransGen (h.reflTransGen hk)).1.rest_eq_iff.1 (hrest k hk)
  refine ⟨m, htaken, hrest, fun k hk ↦ (advances_of_reflTransGen (h.reflTransGen hk)).2, ?_⟩
  intro k hk hstate
  have hcurrent : (f (k + 1)).taken = (f k).taken := by
    rw [htaken k hk, htaken (k + 1) (by omega)]
  exact (h.goesOn k).2 ⟨hcurrent, hstate⟩

/-- If it has two iterations that begin in the same state while nothing else changes, it comes back.
-/
theorem recurs (h : p.Endless d f) {m i j : ℕ} (hm : Idles f m) (hi : m ≤ i) (hij : i < j)
    (hstate : (f j).state = (f i).state) : p.Recurs d := by
  obtain ⟨k, rfl⟩ : ∃ k, j = k + 1 := ⟨j - 1, by omega⟩
  refine ⟨f i, f (k + 1), ?_, TransGen.tail' (h.reflTransGen (by omega)) (h.goesOn k), ?_, ?_⟩
  · rw [← h.zero]
    exact h.reflTransGen (Nat.zero_le i)
  · have hbelow : (f (k + 1)).stack.below = (f i).stack.below := by
      rw [hm.below_eq (k + 1) (by omega), hm.below_eq i hi]
    exact congrArg₂ StateStack.mk hstate hbelow
  · rw [hm.rest_eq (k + 1) (by omega), hm.rest_eq i hi]

/-- With finitely many states it comes back. -/
theorem recurs_of_finite [Finite S] (h : p.Endless d f) : p.Recurs d := by
  obtain ⟨m, hm⟩ := h.exists_idles
  -- two of the states from `m` on are the same
  obtain ⟨i, j, hne, hstate⟩ := Finite.exists_ne_map_eq_of_infinite fun k ↦ (f (m + k)).state
  rcases Nat.lt_or_gt_of_ne hne with hlt | hlt
  · exact h.recurs hm (Nat.le_add_right m i) (Nat.add_lt_add_left hlt m) hstate.symm
  · exact h.recurs hm (Nat.le_add_right m j) (Nat.add_lt_add_left hlt m) hstate

end Endless

/-- If the constructors that it runs return, a building without an outcome goes on forever. -/
theorem RunsReturn.exists_endless (hruns : p.RunsReturn d) (h : ¬p.Finishes d) :
    ∃ f, p.Endless d f := by
  obtain ⟨f, hzero, hgoes⟩ := not_acc_iff_exists_descending_chain.1 fun hacc ↦
    h (hruns.finishes hacc)
  exact ⟨f, hzero, hgoes⟩

/-- **What the check rules out, and what it does not.** An iteration that comes back to its own
states and fragments is answered as stalled, so that no iteration and the one after it begin alike.
A building in which two iterations do begin alike has no outcome. When the constructors that it runs
return, a building has no outcome only if it goes on forever, and from some iteration on takes no
fragment, leaves the enclosing states alone and changes the current one each time. With finitely
many states it then has an outcome if and only if no two of its iterations begin alike. -/
theorem ends_unless_recurs (p : Parser C F S Y N) :
    (∀ {bound x y c s node d d'}, p.Iteration bound x y c s node d d' → d'.Alike d → ∀ n,
      buildChildren p.grammar (p.runConstructor bound) (n + 1) d =
        some ([], .failed (.stalled (Constructor.name c) (text d.state)), d')) ∧
    (∀ {d d'}, p.GoesOn d d' → ¬d'.Alike d) ∧
    (∀ {d}, p.Recurs d → ¬p.Finishes d) ∧
    (∀ {d}, p.RunsReturn d → ¬p.Finishes d → ∃ f m, p.Endless d f ∧ Idles f m) ∧
    (Finite S → ∀ {d}, p.RunsReturn d → (p.Finishes d ↔ ¬p.Recurs d)) := by
  refine ⟨fun h hback n ↦ h.buildChildren_of_alike hback n, GoesOn.not_alike, Recurs.not_finishes,
    fun hruns hfin ↦ ?_, fun _ _ hruns ↦ ⟨fun hfin hrec ↦ hrec.not_finishes hfin, fun hrec ↦ ?_⟩⟩
  · obtain ⟨f, hf⟩ := hruns.exists_endless hfin
    obtain ⟨m, hm⟩ := hf.exists_idles
    exact ⟨f, m, hf, hm⟩
  · by_contra hfin
    obtain ⟨f, hf⟩ := hruns.exists_endless hfin
    exact hrec hf.recurs_of_finite

/-- A parse whose root builds children first, without an outcome, has none. -/
theorem run_eq_none {reader : Lookahead F} {parent : String}
    {k : List N → Except ParseError Unit → Recipe C F S Y N (Option N)}
    (hrecipe : p.recipe p.grammar.initialConstructor = .children parent k)
    (h : ¬p.Finishes ((Session.start reader p.grammar.initialState).record (.children parent)))
    (bound : ℕ) : p.run bound reader = none := by
  rcases hb : buildChildren p.grammar (p.runConstructor bound) bound
    ((Session.start reader p.grammar.initialState).record (.children parent)) with _ | answer
  · simp only [run, hrecipe, Recipe.follow, hb]
  · exact absurd ⟨bound, bound, answer, hb⟩ h

end Parser

/-! ### Two states that lead to each other -/

namespace Blueprint

/-- Two states, in each of which a shared constructor that takes nothing moves the frame to the
other one. -/
def swing : Blueprint where
  recognizers := [(⟨"Word"⟩, .any)]
  rules := [([⟨"Top"⟩], ⟨"Word"⟩, .inl (.childIn ⟨"idle", .shared⟩ ⟨"Loud"⟩)),
    ([⟨"Loud"⟩], ⟨"Word"⟩, .inl (.childIn ⟨"idle", .shared⟩ ⟨"Top"⟩))]
  initial := [(⟨"Top"⟩, ⟨"root", .own⟩)]
  plans := [⟨⟨"root", .own⟩, "root", [.children], true⟩, ⟨⟨"idle", .shared⟩, "idle", [], false⟩]

/-- The parser of the two states. -/
def swingParser : Parser Handle String Name Name Node where
  grammar := ⟨[(⟨"Word"⟩, Predicate.any.accepts)],
    [((⟨"Top"⟩, ⟨"Word"⟩), .fixed (.childIn ⟨"idle", .shared⟩ ⟨"Loud"⟩)),
      ((⟨"Loud"⟩, ⟨"Word"⟩), .fixed (.childIn ⟨"idle", .shared⟩ ⟨"Top"⟩))],
    ⟨"Top"⟩, ⟨"root", .own⟩⟩
  recipe := swing.recipe

/-- Every constructor that its table names returns at once. -/
theorem exists_runConstructor_swing {σ : StateStack Name} {x : String} {y : Name} {c : Handle}
    {s : Option Name} (h : swingParser.grammar.transition? σ x = some (y, .construct c s))
    (s' : Option Name) (d : Session Handle String Name Name) :
    ∃ bound answer, swingParser.runConstructor bound c s' d = some answer := by
  obtain ⟨y', -, h⟩ := Option.bind_eq_some_iff.1 h
  obtain ⟨rule, hlookup, hrule⟩ := Option.map_eq_some_iff.1 h
  obtain ⟨l₁, l₂, hrules, -⟩ := List.lookup_eq_some_iff.1 hlookup
  have hmem : ((σ.top, y'), rule) ∈ swingParser.grammar.rules := by
    rw [hrules]
    exact List.mem_append_right l₁ List.mem_cons_self
  simp only [swingParser, List.mem_cons, List.not_mem_nil, or_false] at hmem
  -- both rules run the same constructor
  have hc : c = ⟨"idle", .shared⟩ := by
    rcases hmem with hmem | hmem <;> obtain ⟨-, rfl⟩ := Prod.mk.inj hmem <;> cases hrule <;> rfl
  subst hc
  exact ⟨1, _, rfl⟩

/-- **The check does not make all buildings end.** The table of the two states is accepted, and the
constructors that it names return. Yet the building of the root's children is back at its beginning
after two iterations, and the parse of a single fragment has no outcome. -/
theorem swing_recurs : swing.parser? = .ok swingParser ∧
    (∀ σ x y c s, swingParser.grammar.transition? σ x = some (y, .construct c s) →
      ∀ s d, ∃ bound answer, swingParser.runConstructor bound c s d = some answer) ∧
    (∃ d d₁ d₂, d = (Session.start (.ofList ["a"]) ⟨"Top"⟩).record (.children "Element") ∧
      swingParser.GoesOn d d₁ ∧ swingParser.GoesOn d₁ d₂ ∧ d₂.stack = d.stack ∧ d₂.rest = d.rest) ∧
    ∀ bound, swingParser.run bound (.ofList ["a"]) = none := by
  have hgoes : ∃ d d₁ d₂, d = (Session.start (.ofList ["a"]) ⟨"Top"⟩).record (.children "Element") ∧
      swingParser.GoesOn d d₁ ∧ swingParser.GoesOn d₁ d₂ ∧ d₂.stack = d.stack ∧
        d₂.rest = d.rest :=
    ⟨_, _, _, rfl, ⟨⟨1, "a", ⟨"Word"⟩, ⟨"idle", .shared⟩, _, none, rfl, rfl, rfl⟩, by decide⟩,
      ⟨⟨1, "a", ⟨"Word"⟩, ⟨"idle", .shared⟩, _, none, rfl, rfl, rfl⟩, by decide⟩, rfl, rfl⟩
  refine ⟨rfl, fun σ x y c s h ↦ exists_runConstructor_swing h, hgoes, ?_⟩
  obtain ⟨_, d₁, d₂, rfl, hgoes₁, hgoes₂, hstack, hrest⟩ := hgoes
  have hrecurs : swingParser.Recurs _ :=
    ⟨_, d₂, .refl, .tail (.single hgoes₁) hgoes₂, hstack, hrest⟩
  exact Parser.run_eq_none rfl hrecurs.not_finishes

end Blueprint

end FragmentParser
