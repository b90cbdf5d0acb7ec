import FragmentParser.Proofs.Outline.Frames
import FragmentParser.Proofs.RootFrame

/-!
# What an outline parse can come to

An outline parse succeeds, or it meets a chunk that no recognizer of the current state accepts.
There is no other error, and success means that every chunk was taken (`parse_outcome`).

The errors are told by the frames: as long as they stand on top of each other the root is never
stopped or redirected away, and a list is only begun with a chunk that is an item. That a parse
which succeeds comes to the end of the input follows for all tables of this kind: the root is in
body state or in one of the state chain, and none of these stops.
-/

namespace FragmentParser.Outline

variable {x : String} {s s' : State} {m : Maker}

/-- A constructor that shares the frame of the root leads along the state chain. -/
theorem Takes.mem_rootStates (h : Takes x s m (some s')) (hframe : Constructor.frame m = .shared) :
    s' ∈ rootStates := by
  cases h with
  | stateA | stateB | stateC => decide
  | «section» | subsection | subsubsection | item => cases hframe
  | list =>
    rename_i k _ _
    cases k <;> cases hframe

/-- Only the end of the input ends the body and the state chain. -/
theorem rootStates_grammar : grammar.RootStates (· ∈ rootStates) where
  initial := by decide
  share {σ x y c s} _ ht hframe := by
    have htakes : Takes x σ.top c (some s) := may_of_transition? ht
    exact htakes.mem_rootStates hframe
  stop {σ x y} hs ht := by
    have hstop : σ.top ∉ rootStates := may_of_transition? ht
    exact hstop hs
  redirect {σ x y s} ht := by
    obtain ⟨-, rfl, -⟩ : σ.top = .subsection ∧ s = .body ∧ beginsWith "State A:" x = true :=
      may_of_transition? ht
    decide

/-- **The outcome of an outline parse.** It succeeds, or it fails with a chunk that no recognizer
matches. When it succeeds it has taken every chunk, and the last step is the end of the input, with
the root alone in body state or in a state of the state chain. -/
theorem parse_outcome (chunks : List String) : ∃ outcome d,
    (∀ bound, chunkBound chunks ≤ bound →
      parser.run bound (.ofList chunks) = some (outcome, d)) ∧
    (CatalogEntry.outline.parse chunks).result = some outcome ∧
    (∀ e, outcome = .error e → ∃ x ∈ chunks, ∃ state tried,
      e = .noRecognizerMatch (fragmentText x) state tried) ∧
    ∀ t, outcome = .ok t → d.rest = [] ∧ d.taken = chunks.length ∧
      ∃ s ∈ [State.body, .stateA, .stateB, .stateC],
        d.steps.getLast? = some ⟨.root s, .exhausted⟩ := by
  obtain ⟨outcome, d, hrun⟩ := describes.exists_run chunks
  have h := hrun _ (Nat.le_refl _)
  refine ⟨outcome, d, hrun, result_of_run h, ?_, ?_⟩
  · rintro e rfl
    obtain ⟨c, outcome, hmoves, hnext, hresult⟩ := exists_moves chunks
    rw [result_of_run h, Option.some.injEq] at hresult
    subst hresult
    have hstands := hmoves.stands
    cases hnext with
    | unmatched => exact ⟨_, hstands.rest _ List.mem_cons_self, _, _, rfl⟩
  · rintro t rfl
    obtain ⟨hrest, htaken, s, hs, -, hlast⟩ := describes.exhausted_of_run rootStates_grammar h
    rw [Lookahead.toList_ofList] at htaken
    refine ⟨hrest, htaken, s, hs, ?_⟩
    rw [Session.steps, List.getLast?_reverse, hlast]

end FragmentParser.Outline
