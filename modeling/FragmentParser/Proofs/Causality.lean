import FragmentParser.Proofs.Correspondence
import FragmentParser.Proofs.Outline.Design

/-!
# Causality

A parse goes by what its source has answered, and looks no further ahead than to the next fragment.
So what lies behind the fragments that it has asked for **makes no difference**: with other
fragments there the parse takes the same course and comes to the same outcome.

Two readers whose sources give the same answers to the first `n` requests (`Lookahead.AgreeUpTo`)
are told apart by the request after these at the earliest, and sessions with such readers correspond
as long as no more requests are made. The source is asked for the fragments that were taken and for
one more at most (`Lookahead.Counts`). Hence a parse that ends with fragment `x` still to come
depends on the fragments up to `x` alone, in particular one that ends because no recognizer matches
`x`; and it does end there, unless a constructor goes on in spite of the error
(`Recipe.PassesMismatches`).
-/

namespace FragmentParser

variable {C F S Y E N : Type}

namespace Source

/-- The source as far as its answers to the next `n` requests. -/
def take (n : Nat) : Source F → Source F
  | .resuming answers => .resuming (answers.take n)
  | .fused items => .fused (items.take n)

theorem ask_take (s : Source F) (n : Nat) : (s.take (n + 1)).ask = (s.ask.1, s.ask.2.take n) := by
  rcases s with (_ | ⟨answer, answers⟩) | (_ | ⟨x, items⟩) <;> simp [take, ask]

theorem mayResume_take (s : Source F) (n : Nat) : (s.take n).mayResume = s.mayResume := by
  cases s <;> rfl

end Source

namespace Lookahead

variable {n : Nat} {r r' : Lookahead F}

/-- The readers have been used in the same way, and their sources give the same answers as long as
they are asked no more than `n` times in all. -/
structure AgreeUpTo (n : Nat) (r r' : Lookahead F) : Prop where
  /-- Both sources have ended, or neither has. -/
  ended_eq : r.ended = r'.ended
  /-- The same item has been looked at. -/
  cached_eq : r.cached = r'.cached
  /-- They have been asked equally often. -/
  asked_eq : r.asked = r'.asked
  /-- The next answers are the same. -/
  source_eq : r.source.take (n - r.asked) = r'.source.take (n - r.asked)

/-- Sources with a common beginning agree up to its end. -/
theorem agreeUpTo_ofList (xs ys zs : List F) :
    AgreeUpTo xs.length (ofList (xs ++ ys)) (ofList (xs ++ zs)) := by
  have htake (ws : List F) : (Source.fused (xs ++ ws)).take xs.length = .fused xs :=
    congrArg Source.fused (List.take_left' rfl)
  exact ⟨rfl, rfl, rfl, (htake ys).trans (htake zs).symm⟩

theorem asked_le_pull (r : Lookahead F) : r.asked ≤ r.pull.2.asked := by
  rw [pull]
  split
  · exact Nat.le_refl _
  · exact Nat.le_succ _

theorem asked_le_peek (r : Lookahead F) : r.asked ≤ r.peek.2.asked := by
  rw [peek]
  split
  · exact Nat.le_refl _
  · exact r.asked_le_pull

theorem asked_le_next (r : Lookahead F) : r.asked ≤ r.next.2.asked := by
  rw [next]
  split
  · exact Nat.le_refl _
  · exact r.asked_le_pull

/-- The `n`-th request is answered in the same way. -/
theorem AgreeUpTo.pull (h : AgreeUpTo n r r') (hn : r.pull.2.asked ≤ n) :
    r.pull.1 = r'.pull.1 ∧ AgreeUpTo n r.pull.2 r'.pull.2 := by
  obtain ⟨source, ended, cached, asked⟩ := r
  obtain ⟨source', ended', cached', asked'⟩ := r'
  obtain ⟨hended, hcached, hasked, hsource⟩ := h
  dsimp only at hended hcached hasked hsource
  subst hended hcached hasked
  cases ended with
  | true => exact ⟨rfl, rfl, rfl, rfl, hsource⟩
  | false =>
    have hlt : asked + 1 ≤ n := hn
    obtain ⟨m, hm⟩ : ∃ m, n - asked = m + 1 := ⟨n - asked - 1, by omega⟩
    have hm' : n - (asked + 1) = m := by omega
    rw [hm] at hsource
    have hask := congrArg Source.ask hsource
    rw [Source.ask_take, Source.ask_take, Prod.mk.injEq] at hask
    obtain ⟨hfst, hsnd⟩ := hask
    have hresume : source.ask.2.mayResume = source'.ask.2.mayResume := by
      rw [← source.ask.2.mayResume_take m, hsnd, Source.mayResume_take]
    refine ⟨hfst, ?_, rfl, rfl, ?_⟩
    · show (source.ask.1.isNone && source.ask.2.mayResume) =
        (source'.ask.1.isNone && source'.ask.2.mayResume)
      rw [hfst, hresume]
    · show source.ask.2.take (n - (asked + 1)) = source'.ask.2.take (n - (asked + 1))
      rw [hm', hsnd]

theorem AgreeUpTo.peek (h : AgreeUpTo n r r') (hn : r.peek.2.asked ≤ n) :
    r.peek.1 = r'.peek.1 ∧ AgreeUpTo n r.peek.2 r'.peek.2 := by
  rw [Lookahead.peek] at hn
  simp only [Lookahead.peek, ← h.cached_eq]
  rcases hc : r.cached with _ | x
  · rw [hc] at hn
    obtain ⟨hfst, hpull⟩ := h.pull hn
    exact ⟨hfst, hpull.ended_eq, hfst, hpull.asked_eq, hpull.source_eq⟩
  · exact ⟨rfl, h⟩

theorem AgreeUpTo.next (h : AgreeUpTo n r r') (hn : r.next.2.asked ≤ n) :
    r.next.1 = r'.next.1 ∧ AgreeUpTo n r.next.2 r'.next.2 := by
  rw [Lookahead.next] at hn
  simp only [Lookahead.next, ← h.cached_eq]
  rcases hc : r.cached with _ | x
  · rw [hc] at hn
    exact h.pull hn
  · exact ⟨rfl, h.ended_eq, rfl, h.asked_eq, h.source_eq⟩

/-- As long as items are to come, the source has been asked for the items that were taken and for
the one in the cache. -/
def Counts (r : Lookahead F) (taken : Nat) : Prop :=
  r.toList ≠ [] → r.asked = taken + r.cached.toList.length

/-- An item that is to come and is not in the cache is asked for. -/
theorem pull_of_ne_nil (hcached : r.cached = none) (hr : r.toList ≠ []) :
    r.pull.1.toList.length = 1 ∧ r.pull.2.asked = r.asked + 1 := by
  constructor
  · obtain ⟨x, hx⟩ := Option.ne_none_iff_exists'.1 (mt List.head?_eq_none_iff.1 hr)
    rw [(r.pull_eq hcached).1, hx]
    rfl
  · cases hended : r.ended with
    | true => exact absurd (by rw [toList, hcached, hended]; rfl) hr
    | false => rw [pull, if_neg (ne_true_of_eq_false hended)]

namespace Counts

variable {taken : Nat}

theorem peek (h : r.Counts taken) : r.peek.2.Counts taken := by
  intro hr
  rw [r.peek_eq.2] at hr
  have hasked := h hr
  rw [Lookahead.peek]
  cases hc : r.cached with
  | some x => exact hasked
  | none =>
    obtain ⟨hone, hpull⟩ := pull_of_ne_nil hc hr
    show r.pull.2.asked = taken + r.pull.1.toList.length
    rw [hpull, hone, hasked, hc]
    rfl

/-- An item that is taken comes to those that were. -/
theorem next (h : r.Counts taken) : r.next.2.Counts (taken + r.next.1.toList.length) := by
  intro hr
  rw [r.next_eq.2] at hr
  have hcons : r.toList ≠ [] := mt (fun hnil ↦ by rw [hnil]; rfl) hr
  have hasked := h hcons
  rw [Lookahead.next]
  cases hc : r.cached with
  | some x =>
    rw [hc] at hasked
    exact hasked
  | none =>
    obtain ⟨hone, hpull⟩ := pull_of_ne_nil hc hcons
    show r.pull.2.asked = taken + r.pull.1.toList.length + r.pull.2.cached.toList.length
    rw [hpull, hone, (r.pull_eq hc).2.2, hasked, hc]
    rfl

/-- While items are to come, the source has been asked for one more at most than were taken. -/
theorem asked_le (h : r.Counts taken) (hr : r.toList ≠ []) : r.asked ≤ taken + 1 := by
  have hlength : r.cached.toList.length ≤ 1 := by cases r.cached <;> simp
  rw [h hr]
  exact Nat.add_le_add_left hlength taken

end Counts

end Lookahead

namespace Session

/-- A fragment that is taken is counted. -/
theorem taken_take (d : Session C F S Y) : d.take.2.taken = d.taken + d.take.1.toList.length := by
  rw [take]
  rcases d.reader.next with ⟨_ | _, _⟩ <;> rfl

/-- The sessions are the same but for what their sources answer after `n` requests. -/
structure SameUpTo (n : Nat) (d e : Session C F S Y) : Prop where
  /-- The states are the same. -/
  stack_eq : d.stack = e.stack
  /-- As many fragments have been taken. -/
  taken_eq : d.taken = e.taken
  /-- The same steps have been recorded. -/
  log_eq : d.log = e.log
  /-- The readers agree. -/
  reader : d.reader.AgreeUpTo n e.reader

/-- Such sessions correspond as long as no more than `n` requests are made. -/
theorem SameUpTo.correspondence (n : Nat) :
    Correspondence (fun r : Lookahead F ↦ r.asked ≤ n)
      (SameUpTo n : Session C F S Y → Session C F S Y → Prop) where
  of_peek h := Nat.le_trans (Lookahead.asked_le_peek _) h
  of_next h := Nat.le_trans (Lookahead.asked_le_next _) h
  stack_eq h := h.stack_eq
  taken_iff h h' := by rw [h.taken_eq, h'.taken_eq]
  peek h hn := by
    obtain ⟨hfst, hreader⟩ := h.reader.peek hn
    exact ⟨hfst, h.stack_eq, h.taken_eq, h.log_eq, hreader⟩
  take {d e} h hn := by
    rw [reader_take] at hn
    obtain ⟨hfst, hreader⟩ := h.reader.next hn
    have hfst' : d.take.1 = e.take.1 := by
      rw [take_fst, take_fst, rest, rest, ← d.reader.next_eq.1, ← e.reader.next_eq.1, hfst]
    refine ⟨hfst', by rw [stack_take, stack_take, h.stack_eq], ?_,
      by rw [log_take, log_take, h.log_eq], by rwa [reader_take, reader_take]⟩
    rw [taken_take, taken_take, h.taken_eq, hfst']
  record h event := by
    refine ⟨h.stack_eq, h.taken_eq, ?_, h.reader⟩
    rw [log_record, log_record, h.stack_eq, h.log_eq]
  withStack h σ := ⟨rfl, h.taken_eq, h.log_eq, h.reader⟩

end Session

open Session

/-! ### Mismatches -/

/-- The error is that no recognizer matches a fragment. -/
def ParseError.IsMismatch : ParseError → Prop
  | .noRecognizerMatch .. => True
  | _ => False

/-- The parse has met fragment `x`, which no recognizer matches, with the error `e`, and has done
nothing since. -/
structure Session.Unmatched [Diagnostic F] [Diagnostic S] [Diagnostic Y] (d : Session C F S Y)
    (e : ParseError) (x : F) : Prop where
  /-- The fragment is still to come. -/
  head : d.rest.head? = some x
  /-- The last step was to compare it with the applicable symbols. -/
  last : ∃ σ candidates, d.log.head? = some ⟨σ, .analyzed x candidates none⟩ ∧
    e = .noRecognizerMatch (fragmentText x) (text σ.top) (candidates.map text)

namespace Recipe

variable {α : Type}

/-- The recipe passes on that no recognizer matches a fragment, and does not report it by itself. -/
def PassesMismatches : Recipe C F S Y N α → Prop
  | .done outcome => ∀ e, outcome = .error e → ¬e.IsMismatch
  | .peek k => ∀ x, (k x).PassesMismatches
  | .take k => ∀ x, (k x).PassesMismatches
  | .inspect k => ∀ σ g, (k σ g).PassesMismatches
  | .children _ k =>
    (∀ nodes e, e.IsMismatch → k nodes (.error e) = .done (.error e)) ∧
      ∀ nodes outcome, (∀ e, outcome = .error e → ¬e.IsMismatch) → (k nodes outcome).PassesMismatches
  | .child _ _ k =>
    (∀ e, e.IsMismatch → k (.error e) = .done (.error e)) ∧
      ∀ outcome, (∀ e, outcome = .error e → ¬e.IsMismatch) → (k outcome).PassesMismatches

/-- What passes all errors on passes mismatches on, since no constructor makes one. -/
theorem PassesOn.passesMismatches {r : Recipe C F S Y N α} (hr : r.PassesOn) : r.PassesMismatches := by
  have hmade : ∀ {e : ParseError}, e.OfConstructor → ¬e.IsMismatch := by
    rintro (_ | _) h hmismatch <;> first | exact h | exact hmismatch
  induction r with
  | done outcome => exact fun e he ↦ hmade (hr e he)
  | peek k ih => exact fun x ↦ ih x (hr x)
  | take k ih => exact fun x ↦ ih x (hr x)
  | inspect k ih => exact fun σ v ↦ ih σ v (hr.2 σ v)
  | children parent k ih =>
    refine ⟨fun nodes e _ ↦ hr.1 nodes e, ?_⟩
    rintro nodes (e | _) ho
    · rw [hr.1 nodes e]
      exact fun e' he' ↦ ho e' (by cases he'; rfl)
    · exact ih nodes _ (hr.2 nodes)
  | child c s k ih =>
    refine ⟨fun e _ ↦ hr.1 e, ?_⟩
    rintro (e | node) ho
    · rw [hr.1 e]
      exact fun e' he' ↦ ho e' (by cases he'; rfl)
    · exact ih _ (hr.2 node)

section Follow

variable [DecidableEq S] [DecidableEq Y] [Diagnostic F] [Diagnostic S] [Diagnostic Y]
  {g : Grammar C F S Y} {build : Session C F S Y → Harvest C F S Y N}
  {run : C → Option S → Session C F S Y → Reply C F S Y (Option N)}

/-- A recipe that passes mismatches on ends with one where it was met. -/
theorem exists_unmatched_of_follow
    (hbuild : ∀ {d nodes ending d' e}, build d = some (nodes, ending, d') →
      ending.outcome = .error e → e.IsMismatch → ∃ x, d'.Unmatched e x)
    (hrun : ∀ {c s d d' e}, run c s d = some (.error e, d') → e.IsMismatch → ∃ x, d'.Unmatched e x)
    {r : Recipe C F S Y N α} (hr : r.PassesMismatches) {d d' : Session C F S Y} {e : ParseError}
    (h : r.follow g build run d = some (.error e, d')) (he : e.IsMismatch) :
    ∃ x, d'.Unmatched e x := by
  induction r generalizing d with
  | done outcome =>
    cases h
    exact absurd he (hr e rfl)
  | peek k ih => exact ih _ (hr _) h
  | take k ih => exact ih _ (hr _) h
  | inspect k ih => exact ih _ _ (hr _ _) h
  | children parent k ih =>
    rw [follow] at h
    split at h
    · cases h
    · next nodes ending d₁ hb =>
      by_cases hmismatch : ∃ e₁, ending.outcome = .error e₁ ∧ e₁.IsMismatch
      · obtain ⟨e₁, houtcome, he₁⟩ := hmismatch
        rw [houtcome, hr.1 nodes e₁ he₁] at h
        cases h
        exact hbuild hb houtcome he
      · exact ih _ _ (hr.2 _ _ fun e₁ ho he₁ ↦ hmismatch ⟨e₁, ho, he₁⟩) h
  | child c s k ih =>
    rw [follow] at h
    split at h
    · cases h
    · next outcome d₁ hc =>
      by_cases hmismatch : ∃ e₁, outcome = .error e₁ ∧ e₁.IsMismatch
      · obtain ⟨e₁, rfl, he₁⟩ := hmismatch
        rw [hr.1 e₁ he₁] at h
        cases h
        exact hrun hc he
      · exact ih _ (hr.2 _ fun e₁ ho he₁ ↦ hmismatch ⟨e₁, ho, he₁⟩) h

end Follow

end Recipe

namespace Parser

variable [DecidableEq S] [DecidableEq Y] [Constructor C] [Diagnostic F] [Diagnostic S]
  [Diagnostic Y] {p : Parser C F S Y N} {bound : Nat} {d d' : Session C F S Y} {e : ParseError}

theorem Built.exists_unmatched {g : Grammar C F S Y}
    {run : C → Option S → Session C F S Y → Reply C F S Y (Option N)}
    (hrun : ∀ {c s d d' e}, run c s d = some (.error e, d') → e.IsMismatch → ∃ x, d'.Unmatched e x)
    {nodes : List N} {ending : Ending S} (h : Built g run d nodes ending d')
    (ho : ending.outcome = .error e) (he : e.IsMismatch) : ∃ x, d'.Unmatched e x := by
  induction h with
  | finish hj =>
    cases hj with
    | exhausted | stopped | redirected => cases ho
    | @unmatched x xs hd =>
      cases ho
      refine ⟨x, ?_, _, _, rfl, rfl⟩
      rw [rest_record, rest_peek, hd]
      rfl
    | orphaned =>
      cases ho
      cases he
  | childFailed hj hr =>
    cases ho
    exact hrun hr he
  | stalled =>
    cases ho
    cases he
  | next _ _ _ _ ih => exact ih ho

theorem exists_unmatched_of_runConstructor (hp : ∀ c, (p.recipe c).PassesMismatches) {c : C}
    {s : Option S} (h : p.runConstructor bound c s d = some (.error e, d')) (he : e.IsMismatch) :
    ∃ x, d'.Unmatched e x := by
  induction bound generalizing c s d d' e with
  | zero => cases h
  | succ bound ih =>
    obtain ⟨d₁, hf, rfl⟩ := exists_follow_of_runConstructor h
    obtain ⟨x, hx⟩ := Recipe.exists_unmatched_of_follow
      (fun hb ↦ (built_of_buildChildren hb).exists_unmatched fun hr ↦ ih hr) (fun hr ↦ ih hr)
      (hp c) hf he
    -- the frame is closed, which neither takes nor records anything
    exact ⟨x, hx.head, hx.last⟩

/-- If all constructors pass mismatches on, a parse that ends with one ends where it was met. -/
theorem exists_unmatched_of_run (hp : ∀ c, (p.recipe c).PassesMismatches) {reader : Lookahead F}
    (h : p.run bound reader = some (.error e, d)) (he : e.IsMismatch) : ∃ x, d.Unmatched e x := by
  obtain ⟨outcome, hf, ho⟩ := exists_follow_of_run h
  rcases outcome with e' | _ | node
  · cases ho
    exact Recipe.exists_unmatched_of_follow
      (fun hb ↦ (built_of_buildChildren hb).exists_unmatched
        fun hr ↦ exists_unmatched_of_runConstructor hp hr)
      (fun hr ↦ exists_unmatched_of_runConstructor hp hr) (hp _) hf he
  · cases ho
    cases he
  · cases ho

/-- A parse takes fragments from the front, and asks for one more at most as long as there are
some. -/
theorem exists_of_run {fragments : List F} {outcome : Except ParseError N}
    (h : p.run bound (.ofList fragments) = some (outcome, d)) :
    ∃ xs, fragments = xs ++ d.rest ∧ d.taken = xs.length ∧
      (d.rest ≠ [] → d.reader.asked ≤ xs.length + 1) := by
  let start : Session C F S Y := .start (.ofList fragments) p.grammar.initialState
  have htake : ∀ {e : Session C F S Y}, e.reader.Counts e.taken →
      e.take.2.reader.Counts e.take.2.taken := by
    intro e he
    rw [reader_take, taken_take, take_fst, rest, ← e.reader.next_eq.1]
    exact he.next
  have hadvances : start.Advances d :=
    invariant_of_run (Advances.invariant p.grammar start) h (.of_eq rfl rfl)
  have hcounts : d.reader.Counts d.taken :=
    invariant_of_run (I := fun e ↦ e.reader.Counts e.taken)
      (.of_operations (fun he ↦ he.peek) htake (fun he _ ↦ he) fun he _ ↦ he) h fun _ ↦ rfl
  obtain ⟨xs, hrest, htaken⟩ := hadvances
  rw [rest_start, Lookahead.toList_ofList] at hrest
  have htaken' : d.taken = xs.length := htaken.trans (Nat.zero_add _)
  exact ⟨xs, hrest, htaken', fun hne ↦ htaken' ▸ hcounts.asked_le hne⟩

/-- The course of a parse is settled by the fragments that its source was asked for. -/
theorem exists_run_of_asked_le {xs ys : List F} {outcome : Except ParseError N}
    (h : p.run bound (.ofList (xs ++ ys)) = some (outcome, d)) (hasked : d.reader.asked ≤ xs.length)
    (zs : List F) :
    ∃ d', p.run bound (.ofList (xs ++ zs)) = some (outcome, d') ∧ d'.steps = d.steps := by
  have hstart : SameUpTo xs.length
      (.start (.ofList (xs ++ ys)) p.grammar.initialState : Session C F S Y)
      (.start (.ofList (xs ++ zs)) p.grammar.initialState) :=
    ⟨rfl, rfl, rfl, Lookahead.agreeUpTo_ofList xs ys zs⟩
  obtain ⟨d', h', hsame⟩ :=
    exists_run_of_corresponds (SameUpTo.correspondence xs.length) h hasked hstart
  exact ⟨d', h', by rw [steps, steps, hsame.log_eq]⟩

/-- Of the fragments that are still to come in the end, only the first one matters. -/
theorem exists_run_of_rest {xs ys : List F} {x : F} {outcome : Except ParseError N}
    (h : p.run bound (.ofList (xs ++ x :: ys)) = some (outcome, d)) (hd : d.rest = x :: ys)
    (zs : List F) :
    ∃ d', p.run bound (.ofList (xs ++ x :: zs)) = some (outcome, d') ∧ d'.steps = d.steps := by
  obtain ⟨us, hus, -, hasked⟩ := exists_of_run h
  have hsplit : ∀ ws, xs ++ x :: ws = (xs ++ [x]) ++ ws := fun ws ↦ by simp
  have hlength : us.length = xs.length := by
    have := congrArg List.length hus
    simp only [hd, List.length_append, List.length_cons] at this
    omega
  have hle : d.reader.asked ≤ (xs ++ [x]).length := by
    rw [List.length_append, List.length_singleton, ← hlength]
    exact hasked (by rw [hd]; exact List.cons_ne_nil _ _)
  rw [hsplit] at h ⊢
  exact exists_run_of_asked_le h hle zs

/-- **Parses are causal.** A parse that ends, with a tree or an error, and has not asked its source
for anything beyond `xs` has the same outcome and the same trace whatever is beyond `xs`. So a parse
that ends with `x` still to come depends on the fragments up to `x` alone. In particular, when no
recognizer matches `x` and no constructor goes on in spite of that, then the parse ends at `x`: the
comparison with `x` is its last step, and the same parse fails in the same way whatever follows `x`.
-/
theorem parse_causal (p : Parser C F S Y N) :
    (∀ {bound xs ys outcome d}, p.run bound (.ofList (xs ++ ys)) = some (outcome, d) →
      d.reader.asked ≤ xs.length → ∀ zs, ∃ d',
        p.run bound (.ofList (xs ++ zs)) = some (outcome, d') ∧ d'.steps = d.steps) ∧
    (∀ {bound xs x ys outcome d}, p.run bound (.ofList (xs ++ x :: ys)) = some (outcome, d) →
      d.rest = x :: ys → ∀ zs, ∃ d',
        p.run bound (.ofList (xs ++ x :: zs)) = some (outcome, d') ∧ d'.steps = d.steps) ∧
    ((∀ c, (p.recipe c).PassesMismatches) → ∀ {bound fragments fragment state tried d},
      p.run bound (.ofList fragments) =
        some (.error (.noRecognizerMatch fragment state tried), d) →
      ∃ xs x ys, fragments = xs ++ x :: ys ∧ fragment = fragmentText x ∧
        (∃ σ candidates, d.steps.getLast? = some ⟨σ, .analyzed x candidates none⟩) ∧
        ∀ zs, ∃ d', p.run bound (.ofList (xs ++ x :: zs)) =
          some (.error (.noRecognizerMatch fragment state tried), d') ∧ d'.steps = d.steps) := by
  refine ⟨exists_run_of_asked_le, exists_run_of_rest, ?_⟩
  intro hp bound fragments fragment state tried d h
  obtain ⟨x, hx⟩ := exists_unmatched_of_run hp h trivial
  obtain ⟨xs, hfragments, -⟩ := exists_of_run h
  obtain ⟨ys, hd⟩ := List.head?_eq_some_iff.1 hx.head
  obtain ⟨σ, candidates, hlast, herror⟩ := hx.last
  rw [hd] at hfragments
  subst hfragments
  refine ⟨xs, x, ys, rfl, (ParseError.noRecognizerMatch.inj herror).1, ⟨σ, candidates, ?_⟩,
    exists_run_of_rest h hd⟩
  rw [steps, List.getLast?_reverse, hlast]

end Parser

/-- The outline parser passes mismatches on. -/
theorem Outline.passesMismatches (m : Outline.Maker) : (Outline.parser.recipe m).PassesMismatches :=
  (Outline.passesOn m).passesMismatches

/-- An outline parse that ends at a chunk too short for a paragraph: the chunk behind it might be
any other. -/
theorem parse_causal_short : ∃ e d, e = .noRecognizerMatch "\"abc\"" "Section"
      ["LiDecimal", "LiRoman", "LiAlpha", "Section", "Subsection", "Preformatted", "Paragraph"] ∧
    Outline.parser.run 8 (.ofList (["1 One", "abc"] ++ ["2 Two"])) = some (.error e, d) ∧
    d.reader.asked ≤ ["1 One", "abc"].length ∧ d.rest = ["abc", "2 Two"] ∧
    (∀ m, (Outline.parser.recipe m).PassesMismatches) ∧
    (∀ zs, ∃ d', Outline.parser.run 8 (.ofList (["1 One", "abc"] ++ zs)) = some (.error e, d') ∧
      d'.steps = d.steps) ∧
    ∃ xs x ys, ["1 One", "abc", "2 Two"] = xs ++ x :: ys ∧ "\"abc\"" = fragmentText x ∧
      (∃ σ candidates, d.steps.getLast? = some ⟨σ, .analyzed x candidates none⟩) ∧
      ∀ zs, ∃ d', Outline.parser.run 8 (.ofList (xs ++ x :: zs)) = some (.error e, d') ∧
        d'.steps = d.steps :=
  ⟨_, _, rfl, rfl, by decide, rfl, Outline.passesMismatches,
    (Parser.parse_causal Outline.parser).1 rfl (by decide),
    (Parser.parse_causal Outline.parser).2.2 Outline.passesMismatches rfl⟩

end FragmentParser
