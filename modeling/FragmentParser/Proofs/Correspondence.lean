import FragmentParser.Proofs.Advance
import FragmentParser.Proofs.Bound

/-!
# Corresponding sessions

All that the activities of a parse go by is the state stack and what the reader shows them. So two
parses go the same way as long as their sessions **correspond**: a relation between sessions that
each single operation keeps is kept by whole activities, with the same outcomes
(`Session.Correspondence`). A correspondence may have a **scope**, a condition on the reader which,
once it fails in a parse, fails for good; nothing is said of activities that end out of scope.

This is proved for the loop that builds children with the check for stalled iterations and without
it (`Parser.buildWith`), so that it holds of the parser and of what the parser would be without the
check.
-/

namespace FragmentParser

variable {C F S Y N : Type}

namespace Session

@[simp] theorem reader_peek (d : Session C F S Y) : d.peek.2.reader = d.reader.peek.2 := rfl

@[simp] theorem reader_take (d : Session C F S Y) : d.take.2.reader = d.reader.next.2 := by
  rw [take]
  rcases d.reader.next with ⟨_ | _, _⟩ <;> rfl

@[simp] theorem reader_share [Constructor C] (d : Session C F S Y) (c : C) (s : Option S) :
    (d.share c s).reader = d.reader := by
  unfold share
  cases Constructor.frame c <;> cases s <;> rfl

/-- A relation between sessions that the single operations of a parse keep, as long as the reader of
the first session is in scope. -/
structure Correspondence (scope : Lookahead F → Prop)
    (R : Session C F S Y → Session C F S Y → Prop) : Prop where
  /-- A look does not lead into scope. -/
  of_peek : ∀ {r}, scope r.peek.2 → scope r
  /-- Nor does taking an item. -/
  of_next : ∀ {r}, scope r.next.2 → scope r
  /-- The states are the same. -/
  stack_eq : ∀ {d e}, R d e → d.stack = e.stack
  /-- Fragments are taken from both or from none. -/
  taken_iff : ∀ {d e d' e'}, R d e → R d' e' → (d'.taken = d.taken ↔ e'.taken = e.taken)
  /-- A look shows the same. -/
  peek : ∀ {d e}, R d e → scope d.peek.2.reader → d.peek.1 = e.peek.1 ∧ R d.peek.2 e.peek.2
  /-- The same fragment is taken. -/
  take : ∀ {d e}, R d e → scope d.take.2.reader → d.take.1 = e.take.1 ∧ R d.take.2 e.take.2
  /-- The same event may be recorded. -/
  record : ∀ {d e}, R d e → ∀ event, R (d.record event) (e.record event)
  /-- The stacks may be replaced by the same one. -/
  withStack : ∀ {d e}, R d e → ∀ σ, R { d with stack := σ } { e with stack := σ }

namespace Correspondence

variable {scope : Lookahead F → Prop} {R : Session C F S Y → Session C F S Y → Prop}
  {d e : Session C F S Y}

theorem state_eq (hR : Correspondence scope R) (h : R d e) : d.state = e.state :=
  congrArg StateStack.top (hR.stack_eq h)

theorem openFrame (hR : Correspondence scope R) (h : R d e) (s : Option S) :
    R (d.openFrame s) (e.openFrame s) := by
  simp only [Session.openFrame, hR.state_eq h, hR.stack_eq h]
  exact hR.withStack h _

theorem closeFrame (hR : Correspondence scope R) (h : R d e) : R d.closeFrame e.closeFrame := by
  simp only [Session.closeFrame, hR.stack_eq h]
  exact hR.withStack h _

theorem share [Constructor C] (hR : Correspondence scope R) (h : R d e) (c : C) (s : Option S) :
    R (d.share c s) (e.share c s) := by
  simp only [Session.share, hR.state_eq h, hR.stack_eq h]
  rcases Constructor.frame c with _ | _ <;> rcases s with _ | s
  · exact h
  · exact hR.record (hR.withStack h _) _
  · exact h
  · exact h

theorem resolved [DecidableEq S] [DecidableEq Y] (hR : Correspondence scope R) (h : R d e)
    (hscope : scope d.peek.2.reader) (g : Grammar C F S Y) (x : F) (y : Y) (t : Transition C S) :
    R (d.resolved g x y t) (e.resolved g x y t) := by
  simp only [Session.resolved, hR.state_eq h]
  exact hR.record (hR.record (hR.peek h hscope).2 _) _

end Correspondence

section Judged

variable [DecidableEq S] [DecidableEq Y] [Diagnostic F] [Diagnostic S] [Diagnostic Y]
  {g : Grammar C F S Y} {d d' : Session C F S Y} {v : Verdict C S}

/-- A verdict takes one look. -/
theorem Judged.reader_eq (h : d.Judged g v d') : d'.reader = d.reader.peek.2 := by
  cases h <;> rfl

/-- Corresponding sessions are judged in the same way. -/
theorem Correspondence.exists_judged {scope : Lookahead F → Prop}
    {R : Session C F S Y → Session C F S Y → Prop} (hR : Correspondence scope R)
    (h : d.Judged g v d') (hscope : scope d'.reader) {e : Session C F S Y} (hde : R d e) :
    ∃ e', e.Judged g v e' ∧ R d' e' := by
  rw [h.reader_eq] at hscope
  obtain ⟨hfst, hpeek⟩ := hR.peek hde hscope
  rw [peek_fst, peek_fst] at hfst
  have hstack := hR.stack_eq hde
  have hstate := hR.state_eq hde
  have hhead : ∀ {x xs}, d.rest = x :: xs → ∃ ys, e.rest = x :: ys := by
    intro x xs hd
    rw [hd] at hfst
    exact List.head?_eq_some_iff.1 hfst.symm
  cases h with
  | exhausted hd =>
    rw [hd] at hfst
    exact ⟨_, .exhausted (List.head?_eq_none_iff.1 hfst.symm), hR.record hpeek _⟩
  | unmatched hd ht =>
    obtain ⟨ys, he⟩ := hhead hd
    rw [hstate]
    exact ⟨_, .unmatched he (hstack ▸ ht), hR.record hpeek _⟩
  | stopped hd ht =>
    obtain ⟨ys, he⟩ := hhead hd
    exact ⟨_, .stopped he (hstack ▸ ht), hR.resolved hde hscope ..⟩
  | redirected hd ht hσ =>
    obtain ⟨ys, he⟩ := hhead hd
    exact ⟨_, .redirected he (hstack ▸ ht) (hstack ▸ hσ),
      hR.record (hR.withStack (hR.resolved hde hscope ..) _) _⟩
  | orphaned hd ht hσ =>
    obtain ⟨ys, he⟩ := hhead hd
    rw [hstate]
    exact ⟨_, .orphaned he (hstack ▸ ht) (hstack ▸ hσ), hR.resolved hde hscope ..⟩
  | construct hd ht =>
    obtain ⟨ys, he⟩ := hhead hd
    exact ⟨_, .construct he (hstack ▸ ht), hR.resolved hde hscope ..⟩

end Judged

end Session

open Session

/-- Following a recipe keeps a correspondence, if building children and running constructors do. -/
theorem Recipe.corresponds_follow {scope : Lookahead F → Prop}
    {R : Session C F S Y → Session C F S Y → Prop} (hR : Correspondence scope R) {α : Type}
    [DecidableEq S] [DecidableEq Y] {g : Grammar C F S Y} {build : Session C F S Y → Harvest C F S Y N}
    {run : C → Option S → Session C F S Y → Reply C F S Y (Option N)}
    (hbuild : ∀ {d nodes ending d'}, build d = some (nodes, ending, d') → scope d'.reader →
      scope d.reader ∧ ∀ {e}, R d e → ∃ e', build e = some (nodes, ending, e') ∧ R d' e')
    (hrun : ∀ {c s d outcome d'}, run c s d = some (outcome, d') → scope d'.reader →
      scope d.reader ∧ ∀ {e}, R d e → ∃ e', run c s e = some (outcome, e') ∧ R d' e')
    {r : Recipe C F S Y N α} {d d' : Session C F S Y} {outcome : Except ParseError α}
    (h : r.follow g build run d = some (outcome, d')) (hscope : scope d'.reader) :
    scope d.reader ∧ ∀ {e}, R d e → ∃ e', r.follow g build run e = some (outcome, e') ∧ R d' e' := by
  induction r generalizing d with
  | done _ =>
    cases h
    exact ⟨hscope, fun hde ↦ ⟨_, rfl, hde⟩⟩
  | peek k ih =>
    rw [follow] at h
    obtain ⟨hpeek, hlater⟩ := ih _ h
    refine ⟨hR.of_peek hpeek, fun hde ↦ ?_⟩
    obtain ⟨hfst, hde'⟩ := hR.peek hde hpeek
    rw [follow, ← hfst]
    exact hlater hde'
  | take k ih =>
    rw [follow] at h
    obtain ⟨htake, hlater⟩ := ih _ h
    refine ⟨hR.of_next (d.reader_take ▸ htake), fun hde ↦ ?_⟩
    obtain ⟨hfst, hde'⟩ := hR.take hde htake
    rw [follow, ← hfst]
    exact hlater hde'
  | inspect k ih =>
    rw [follow] at h
    obtain ⟨hd, hlater⟩ := ih _ _ h
    refine ⟨hd, fun hde ↦ ?_⟩
    rw [follow, ← hR.stack_eq hde]
    exact hlater hde
  | children parent k ih =>
    rw [follow] at h
    split at h
    · cases h
    · next hb =>
      obtain ⟨hmid, hlater⟩ := ih _ _ h
      obtain ⟨hd, hbuilt⟩ := hbuild hb hmid
      refine ⟨hd, fun hde ↦ ?_⟩
      obtain ⟨e₁, he, hde₁⟩ := hbuilt (hR.record hde _)
      rw [follow, he]
      exact hlater hde₁
  | child c s k ih =>
    rw [follow] at h
    split at h
    · cases h
    · next hr =>
      obtain ⟨hmid, hlater⟩ := ih _ h
      obtain ⟨hd, hran⟩ := hrun hr hmid
      refine ⟨hd, fun hde ↦ ?_⟩
      obtain ⟨e₁, he, hde₁⟩ := hran hde
      rw [follow, he]
      exact hlater hde₁

namespace Parser

variable [DecidableEq S] [DecidableEq Y] [Constructor C] [Diagnostic F] [Diagnostic S]
  [Diagnostic Y]

/-! ### The loop with and without its check -/

/-- Build children as `Parser.buildChildren` does, with or without the check for iterations that
take no fragment and leave the state alone. -/
def buildWith (check : Bool) (g : Grammar C F S Y)
    (run : C → Option S → Session C F S Y → Reply C F S Y (Option N)) :
    (bound : Nat) → Session C F S Y → Harvest C F S Y N
  | 0, _ => none
  | bound + 1, d =>
    match d.judge g with
    | (.finish ending, d) => some ([], ending, d)
    | (.construct c s, d) =>
      match run c s (d.share c s) with
      | none => none
      | some (.error e, d') => some ([], .childFailed e, d')
      | some (.ok node, d') =>
        if check ∧ d'.taken = d.taken ∧ d'.state = d.state then
          some ([], .failed (.stalled (Constructor.name c) (text d.state)), d')
        else
          match buildWith check g run bound d' with
          | none => none
          | some (nodes, ending, d'') => some (node.toList ++ nodes, ending, d'')

/-- Run a constructor with or without the check. -/
def constructWith (check : Bool) (p : Parser C F S Y N) :
    (bound : Nat) → C → Option S → Session C F S Y → Reply C F S Y (Option N)
  | 0, _, _, _ => none
  | bound + 1, c, s, d =>
    match (p.recipe c).follow p.grammar
        (buildWith check p.grammar (constructWith check p bound) bound) (constructWith check p bound)
        (d.openFrame s) with
    | none => none
    | some (outcome, d) => some (outcome, d.closeFrame)

/-- Parse with or without the check. -/
def runWith (check : Bool) (p : Parser C F S Y N) (bound : Nat) (reader : Lookahead F) :
    Reply C F S Y N :=
  let c := p.grammar.initialConstructor
  match (p.recipe c).follow p.grammar
      (buildWith check p.grammar (constructWith check p bound) bound) (constructWith check p bound)
      (Session.start reader p.grammar.initialState) with
  | none => none
  | some (.error e, d) => some (.error e, d)
  | some (.ok none, d) => some (.error (.emptyRoot (Constructor.name c)), d)
  | some (.ok (some node), d) => some (.ok node, d)

/-- With the check it is the loop of the parser. -/
theorem buildWith_true (g : Grammar C F S Y)
    (run : C → Option S → Session C F S Y → Reply C F S Y (Option N)) (bound : Nat) :
    buildWith true g run bound = buildChildren g run bound := by
  funext d
  induction bound generalizing d with
  | zero => rfl
  | succ bound ih =>
    rw [buildWith, buildChildren]
    rcases d.judge g with ⟨ending | ⟨c, s⟩, d₁⟩
    · rfl
    · rcases hr : run c s (d₁.share c s) with _ | ⟨err | node, d'⟩ <;> simp only [hr]
      rcases hb : buildChildren g run bound d' with _ | ⟨nodes, ending, d''⟩ <;>
        simp only [ih, hb, true_and]

theorem constructWith_true (p : Parser C F S Y N) (bound : Nat) :
    p.constructWith true bound = p.runConstructor bound := by
  induction bound with
  | zero => rfl
  | succ bound ih =>
    funext c s d
    rcases hf : (p.recipe c).follow p.grammar
      (buildChildren p.grammar (p.runConstructor bound) bound) (p.runConstructor bound)
      (d.openFrame s) with _ | ⟨outcome, d'⟩ <;>
      simp only [constructWith, runConstructor, buildWith_true, ih, hf]

theorem runWith_true (p : Parser C F S Y N) (bound : Nat) (reader : Lookahead F) :
    p.runWith true bound reader = p.run bound reader := by
  rcases hf : (p.recipe p.grammar.initialConstructor).follow p.grammar
    (buildChildren p.grammar (p.runConstructor bound) bound) (p.runConstructor bound)
    (Session.start reader p.grammar.initialState) with _ | ⟨err | _ | node, d⟩ <;>
    simp only [runWith, run, buildWith_true, constructWith_true, hf]

/-! ### Activities of corresponding sessions -/

variable {scope : Lookahead F → Prop} {R : Session C F S Y → Session C F S Y → Prop} {check : Bool}
  {d d' : Session C F S Y}

theorem corresponds_buildWith (hR : Correspondence scope R) {g : Grammar C F S Y}
    {run : C → Option S → Session C F S Y → Reply C F S Y (Option N)}
    (hrun : ∀ {c s d outcome d'}, run c s d = some (outcome, d') → scope d'.reader →
      scope d.reader ∧ ∀ {e}, R d e → ∃ e', run c s e = some (outcome, e') ∧ R d' e')
    {bound : Nat} {nodes : List N} {ending : Ending S}
    (h : buildWith check g run bound d = some (nodes, ending, d')) (hscope : scope d'.reader) :
    scope d.reader ∧
      ∀ {e}, R d e → ∃ e', buildWith check g run bound e = some (nodes, ending, e') ∧ R d' e' := by
  induction bound generalizing d nodes with
  | zero => cases h
  | succ bound ih =>
    rw [buildWith] at h
    have hj := d.judged g
    generalize d.judge g = verdict at h hj
    obtain ⟨_ | ⟨c, s⟩, d₁⟩ := verdict
    · cases h
      refine ⟨hR.of_peek (hj.reader_eq ▸ hscope), fun hde ↦ ?_⟩
      obtain ⟨e₁, hj', hde₁⟩ := hR.exists_judged hj hscope hde
      rw [buildWith, hj'.judge_eq]
      exact ⟨e₁, rfl, hde₁⟩
    · change d.Judged g (.construct c s) d₁ at hj
      simp only at h
      -- once it is known that the run of the constructor ended in scope, so did all before it
      have hcall : ∀ {outcome d₂}, run c s (d₁.share c s) = some (outcome, d₂) → scope d₂.reader →
          scope d.reader ∧ ∀ {e}, R d e → ∃ e₁ e₂, e.judge g = (.construct c s, e₁) ∧ R d₁ e₁ ∧
            run c s (e₁.share c s) = some (outcome, e₂) ∧ R d₂ e₂ := by
        intro outcome d₂ hr hd₂
        obtain ⟨hd₁, hran⟩ := hrun hr hd₂
        rw [reader_share] at hd₁
        refine ⟨hR.of_peek (hj.reader_eq ▸ hd₁), fun hde ↦ ?_⟩
        obtain ⟨e₁, hj', hde₁⟩ := hR.exists_judged hj hd₁ hde
        obtain ⟨e₂, hr', hde₂⟩ := hran (hR.share hde₁ c s)
        exact ⟨e₁, e₂, hj'.judge_eq, hde₁, hr', hde₂⟩
      rcases hr : run c s (d₁.share c s) with _ | ⟨_ | node, d₂⟩
      · simp [hr] at h
      · simp only [hr] at h
        cases h
        obtain ⟨hd, hcall⟩ := hcall hr hscope
        refine ⟨hd, fun hde ↦ ?_⟩
        obtain ⟨e₁, e₂, hj', -, hr', hde₂⟩ := hcall hde
        rw [buildWith, hj']
        simp only [hr']
        exact ⟨e₂, rfl, hde₂⟩
      · simp only [hr] at h
        split at h
        · next hstall =>
          cases h
          obtain ⟨hd, hcall⟩ := hcall hr hscope
          refine ⟨hd, fun hde ↦ ?_⟩
          obtain ⟨e₁, e₂, hj', hde₁, hr', hde₂⟩ := hcall hde
          rw [hR.taken_iff hde₁ hde₂, hR.state_eq hde₁, hR.state_eq hde₂] at hstall
          rw [buildWith, hj', hR.state_eq hde₁]
          simp only [hr', if_pos hstall]
          exact ⟨e₂, rfl, hde₂⟩
        · next hstall =>
          rcases hb : buildWith check g run bound d₂ with _ | ⟨nodes', ending', d₃⟩
          · simp [hb] at h
          · simp only [hb] at h
            cases h
            obtain ⟨hd₂, hlater⟩ := ih hb
            obtain ⟨hd, hcall⟩ := hcall hr hd₂
            refine ⟨hd, fun hde ↦ ?_⟩
            obtain ⟨e₁, e₂, hj', hde₁, hr', hde₂⟩ := hcall hde
            rw [hR.taken_iff hde₁ hde₂, hR.state_eq hde₁, hR.state_eq hde₂] at hstall
            obtain ⟨e₃, hb', hde₃⟩ := hlater hde₂
            rw [buildWith, hj']
            simp only [hr', if_neg hstall, hb']
            exact ⟨e₃, rfl, hde₃⟩

variable {p : Parser C F S Y N} {bound : Nat}

theorem corresponds_constructWith (hR : Correspondence scope R) {c : C} {s : Option S}
    {outcome : Except ParseError (Option N)}
    (h : p.constructWith check bound c s d = some (outcome, d')) (hscope : scope d'.reader) :
    scope d.reader ∧
      ∀ {e}, R d e → ∃ e', p.constructWith check bound c s e = some (outcome, e') ∧ R d' e' := by
  induction bound generalizing c s d d' outcome with
  | zero => cases h
  | succ bound ih =>
    rw [constructWith] at h
    split at h
    · cases h
    · next outcome d₁ hf =>
      cases h
      have hd₁ : scope d₁.reader := hscope
      obtain ⟨hd, hfollowed⟩ := Recipe.corresponds_follow hR
        (fun hb ↦ corresponds_buildWith hR (fun hr ↦ ih hr) hb) (fun hr ↦ ih hr) hf hd₁
      refine ⟨hd, fun hde ↦ ?_⟩
      obtain ⟨e₁, hf', hde₁⟩ := hfollowed (hR.openFrame hde s)
      rw [constructWith, hf']
      exact ⟨e₁.closeFrame, rfl, hR.closeFrame hde₁⟩

/-- **Parses correspond**, whatever the recipes are, as long as they are in scope. -/
theorem exists_run_of_corresponds (hR : Correspondence scope R) {reader reader' : Lookahead F}
    {outcome : Except ParseError N} (h : p.run bound reader = some (outcome, d))
    (hscope : scope d.reader) (hstart : R (.start reader p.grammar.initialState)
      (.start reader' p.grammar.initialState)) :
    ∃ d', p.run bound reader' = some (outcome, d') ∧ R d d' := by
  rw [← runWith_true] at h
  have hfollow : ∀ {outcome d}, (p.recipe p.grammar.initialConstructor).follow p.grammar
      (buildWith true p.grammar (p.constructWith true bound) bound) (p.constructWith true bound)
      (Session.start reader p.grammar.initialState) = some (outcome, d) → scope d.reader →
        ∃ d', (p.recipe p.grammar.initialConstructor).follow p.grammar
          (buildWith true p.grammar (p.constructWith true bound) bound) (p.constructWith true bound)
          (Session.start reader' p.grammar.initialState) = some (outcome, d') ∧ R d d' :=
    fun hf hd ↦ (Recipe.corresponds_follow hR
      (fun hb ↦ corresponds_buildWith hR (fun hr ↦ corresponds_constructWith hR hr) hb)
      (fun hr ↦ corresponds_constructWith hR hr) hf hd).2 hstart
  simp only [← runWith_true, runWith] at h ⊢
  split at h
  · cases h
  all_goals
    next hf =>
      cases h
      obtain ⟨d', hf', hR'⟩ := hfollow hf hscope
      exact ⟨d', by rw [hf'], hR'⟩

end Parser

end FragmentParser
