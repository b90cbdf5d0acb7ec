import FragmentParser.Proofs.Grammar.Checks
import FragmentParser.Proofs.Memo.Design

/-!
# Grammars as they are seen

A parse asks its grammar for the symbols applicable in a state, for the symbol of a fragment and for
the rule of a symbol, and a constructor can ask for no more than the view (`Grammar.View`). So
grammars with the same view are **the same for all parses**: the outcomes are the same, and so are
the sessions, with all that was recorded (`Parser.run_eq_of_view_eq`).

The order in which rules were registered is not in the view of an accepted draft, since different
keys are looked up in any order with the same result.
-/

namespace FragmentParser

variable {C F S Y N : Type} [DecidableEq S] [DecidableEq Y]

section View

variable {g g' : Grammar C F S Y} (h : g.view = g'.view)

include h

theorem Session.judge_eq_of_view_eq [Diagnostic F] [Diagnostic S] [Diagnostic Y]
    (d : Session C F S Y) : d.judge g = d.judge g' := by
  have happlicable : g.applicable = g'.applicable := congrArg Grammar.View.applicable h
  have hrecognize : g.recognize = g'.recognize := congrArg Grammar.View.recognize h
  have hrule : g.rule? = g'.rule? := congrArg Grammar.View.rule? h
  have hanalyze : d.analyze g = d.analyze g' := by
    rw [analyze, analyze, happlicable, hrecognize]
  have hresolve : ∀ (e : Session C F S Y) y, e.resolve g y = e.resolve g' y := fun e y ↦ by
    rw [resolve, resolve, hrule]
  simp only [judge, hanalyze, hresolve]

theorem Recipe.follow_eq_of_view_eq {α : Type} {build : Session C F S Y → Harvest C F S Y N}
    {run : C → Option S → Session C F S Y → Reply C F S Y (Option N)} (r : Recipe C F S Y N α)
    (d : Session C F S Y) : r.follow g build run d = r.follow g' build run d := by
  induction r generalizing d with
  | done outcome => rfl
  | peek k ih => exact ih _ _
  | take k ih => exact ih _ _
  | inspect k ih =>
    rw [follow, follow, h]
    exact ih _ _ _
  | children parent k ih => simp only [follow, ih]
  | child c s k ih => simp only [follow, ih]

variable [Constructor C] [Diagnostic F] [Diagnostic S] [Diagnostic Y]

namespace Parser

theorem buildChildren_eq_of_view_eq
    (run : C → Option S → Session C F S Y → Reply C F S Y (Option N)) (bound : Nat) :
    buildChildren g run bound = buildChildren g' run bound := by
  funext d
  induction bound generalizing d with
  | zero => rfl
  | succ bound ih => simp only [buildChildren, d.judge_eq_of_view_eq h, ih]

theorem runConstructor_eq_of_view_eq (recipe : C → Recipe C F S Y N (Option N)) (bound : Nat) :
    (⟨g, recipe⟩ : Parser C F S Y N).runConstructor bound =
      (⟨g', recipe⟩ : Parser C F S Y N).runConstructor bound := by
  induction bound with
  | zero => rfl
  | succ bound ih =>
    funext c s d
    simp only [runConstructor, ih, buildChildren_eq_of_view_eq h, Recipe.follow_eq_of_view_eq h]

/-- **A parse depends on its grammar by what can be seen of it alone.** -/
theorem run_eq_of_view_eq (recipe : C → Recipe C F S Y N (Option N)) (bound : Nat)
    (reader : Lookahead F) : (⟨g, recipe⟩ : Parser C F S Y N).run bound reader =
      (⟨g', recipe⟩ : Parser C F S Y N).run bound reader := by
  have hstate : g.initialState = g'.initialState := congrArg Grammar.View.initialState h
  have hconstructor : g.initialConstructor = g'.initialConstructor :=
    congrArg Grammar.View.initialConstructor h
  simp only [run, hstate, hconstructor, runConstructor_eq_of_view_eq h,
    buildChildren_eq_of_view_eq h, Recipe.follow_eq_of_view_eq h]

end Parser

end View

namespace Grammar

/-- The recognizers and the rules that can be looked up make the view, up to the beginning. -/
theorem view_eq {g g' : Grammar C F S Y} (hrecognizers : g'.recognizers = g.recognizers)
    (hrule : g'.rule? = g.rule?) (hcount : g'.rules.length = g.rules.length)
    (hstate : g'.initialState = g.initialState)
    (hconstructor : g'.initialConstructor = g.initialConstructor) : g'.view = g.view := by
  have hsymbols : g'.symbols = g.symbols := by rw [symbols, symbols, hrecognizers]
  have happlicable : g'.applicable = g.applicable := by
    funext s
    rw [applicable, applicable, hsymbols, hrule]
  have hrecognize : g'.recognize = g.recognize := by
    funext s x
    rw [recognize, recognize, hrecognizers, hrule]
  rw [view, view, hsymbols, happlicable, hrecognize, hrule, hcount, hstate, hconstructor]

namespace Draft

variable [Diagnostic S] [Diagnostic Y] {d d' : Draft C F S Y} {g : Grammar C F S Y}

/-- With its rules in another order an accepted draft is accepted, and its grammar looks the same.
-/
theorem exists_build_of_perm (hrecognizers : d'.recognizers = d.recognizers)
    (hrules : d'.rules.Perm d.rules) (hinitial : d'.initial = d.initial) (h : d.build = .ok g) :
    ∃ g', d'.build = .ok g' ∧ g'.view = g.view := by
  obtain ⟨haccepted, hstart, hg, hgrules⟩ := build_eq_ok_iff.1 h
  have hsymbols : d'.symbols = d.symbols := by rw [symbols, symbols, hrecognizers]
  have hkeys : d'.keys.Perm d.keys := hrules.map _
  have haccepted' : d'.Accepted := by
    refine ⟨hinitial ▸ haccepted.initial, hsymbols ▸ haccepted.nodup_symbols, fun k hk ↦ ?_,
      hkeys.nodup_iff.2 haccepted.nodup_keys⟩
    rw [hsymbols]
    exact haccepted.registered k (hkeys.mem_iff.1 hk)
  obtain ⟨g', h'⟩ := haccepted'.exists_build
  obtain ⟨-, hstart', hg', hgrules'⟩ := build_eq_ok_iff.1 h'
  refine ⟨g', h', view_eq (by rw [hg', hg, hrecognizers]) ?_ (by rw [hgrules', hgrules, hrules.length_eq])
    ?_ ?_⟩
  · -- the same rules are found, since they are the same rules
    funext s y
    refine Option.ext fun r ↦ ?_
    rw [(tabulates_of_build h').rule?_iff, (tabulates_of_build h).rule?_iff, hrules.mem_iff]
  · rw [hinitial, hstart] at hstart'
    exact (Prod.mk.inj (Option.some.inj hstart')).1.symm
  · rw [hinitial, hstart] at hstart'
    exact (Prod.mk.inj (Option.some.inj hstart')).2.symm

/-! ### All sequences of calls -/

variable [Constructor C] [Diagnostic F]

/-- **What builders accept and what they make.** A sequence of calls has a grammar exactly if it
sets a beginning, registers no symbol twice and gives rules for registered symbols with different
keys; else the first fault is reported. The grammar answers from what was registered. With the rules
registered in another order all parses are the same, in their outcomes and in all that they record.
No parse comes to a symbol whose rule is missing, and none ends with that error unless a constructor
makes it. -/
theorem build_ofCalls (calls : List (Call C F S Y)) :
    ofCalls calls = ⟨calls.flatMap Call.recognizers, calls.flatMap Call.rules,
      (calls.flatMap Call.initials).getLast?⟩ ∧
    ((∃ g, (ofCalls calls).build = .ok g) ↔ (ofCalls calls).Accepted) ∧
    (∀ e, (ofCalls calls).build = .error e ↔ (ofCalls calls).Faulty e) ∧
    ∀ g, (ofCalls calls).build = .ok g →
      (ofCalls calls).Tabulates g ∧
      (∀ calls', calls'.flatMap Call.recognizers = calls.flatMap Call.recognizers →
        (calls'.flatMap Call.initials).getLast? = (calls.flatMap Call.initials).getLast? →
        (calls'.flatMap Call.rules).Perm (calls.flatMap Call.rules) →
        ∃ g', (ofCalls calls').build = .ok g' ∧
          ∀ (recipe : C → Recipe C F S Y N (Option N)) (bound : Nat) (reader : Lookahead F),
            (⟨g', recipe⟩ : Parser C F S Y N).run bound reader =
              (⟨g, recipe⟩ : Parser C F S Y N).run bound reader) ∧
      (∀ (d : Session C F S Y) s y, (d.judge g).1 ≠ .finish (.failed (.noTransition s y))) ∧
      ∀ (recipe : C → Recipe C F S Y N (Option N)),
        (∀ c, (recipe c).DoesNotMake ParseError.IsMissingRule) →
        ∀ (bound : Nat) (reader : Lookahead F) s y d,
          (⟨g, recipe⟩ : Parser C F S Y N).run bound reader ≠ some (.error (.noTransition s y), d) := by
  refine ⟨ofCalls_eq calls, ⟨fun ⟨g, h⟩ ↦ (build_eq_ok_iff.1 h).1, Accepted.exists_build⟩,
    fun e ↦ build_eq_error_iff, fun g h ↦ ⟨tabulates_of_build h, ?_, ?_, ?_⟩⟩
  · intro calls' hrecognizers hinitials hrules
    have hparts := ofCalls_eq calls
    have hparts' := ofCalls_eq calls'
    obtain ⟨g', h', hview⟩ : ∃ g', (ofCalls calls').build = .ok g' ∧ g'.view = g.view :=
      exists_build_of_perm (by rw [hparts, hparts', hrecognizers])
        (by rw [hparts, hparts']; exact hrules) (by rw [hparts, hparts', hinitials]) h
    exact ⟨g', h', fun recipe bound reader ↦ Parser.run_eq_of_view_eq hview recipe bound reader⟩
  · intro d s y hjudge
    have hj := d.judged g
    rw [hjudge] at hj
    cases hj
  · intro recipe hrecipe bound reader s y d hrun
    exact Parser.not_of_run (p := ⟨g, recipe⟩) (fun _ ↦ ParseError.OfParse.not_isMissingRule) hrecipe
      hrun trivial

end Draft

end Grammar

namespace Memo

open Grammar.Draft

/-- The calls that assemble the memo grammar, with the rules first and backwards, and a beginning
that is replaced later. -/
def backwardCalls : List (Call Maker String State Symbol) :=
  [.transition .section .section .stop,
    .transitions [.section, .body] .preformatted (.child .preformatted),
    .startingAt .section .section,
    .transitions [.section, .body] .paragraph (.child .paragraph),
    .transition .body .section (.childIn .section .section),
    .recognizer .section (fun chunk ↦ (heading? chunk.toList).isSome),
    .recognizer .preformatted (fun chunk ↦ isPreformatted chunk.toList),
    .recognizer .paragraph (fun _ ↦ true),
    .startingAt .body .body]

/-- The calls in the usual order. -/
def calls : List (Call Maker String State Symbol) :=
  [.recognizer .section (fun chunk ↦ (heading? chunk.toList).isSome),
    .recognizer .preformatted (fun chunk ↦ isPreformatted chunk.toList),
    .recognizer .paragraph (fun _ ↦ true),
    .transition .body .section (.childIn .section .section),
    .transitions [.body, .section] .paragraph (.child .paragraph),
    .transitions [.body, .section] .preformatted (.child .preformatted),
    .transition .section .section .stop,
    .startingAt .body .body]

/-- Both make the same memo parser, and it never misses a rule. -/
theorem build_ofCalls_memo : (ofCalls calls).build = .ok grammar ∧
    (∃ g', (ofCalls backwardCalls).build = .ok g' ∧ ∀ bound reader,
      (⟨g', recipe⟩ : Parser Maker String State Symbol Node).run bound reader =
        parser.run bound reader) ∧
    (∀ c, (recipe c).DoesNotMake ParseError.IsMissingRule) ∧
    ∀ bound reader s y d, parser.run bound reader ≠ some (.error (.noTransition s y), d) := by
  have hbuild : (ofCalls calls).build = .ok grammar := rfl
  have hrecipe : ∀ c, (recipe c).DoesNotMake ParseError.IsMissingRule := fun c ↦
    (passesOn c).doesNotMake fun _ ↦ ParseError.OfConstructor.not_isMissingRule
  obtain ⟨-, -, -, h⟩ := build_ofCalls (N := Node) calls
  obtain ⟨-, hperm, -, hrules⟩ := h grammar hbuild
  have hreverse : backwardCalls.flatMap Call.rules = (calls.flatMap Call.rules).reverse := rfl
  obtain ⟨g', hbuild', hrun⟩ := hperm backwardCalls rfl rfl (hreverse ▸ List.reverse_perm _)
  exact ⟨hbuild, ⟨g', hbuild', hrun recipe⟩, hrecipe, hrules recipe hrecipe⟩

end Memo

end FragmentParser
