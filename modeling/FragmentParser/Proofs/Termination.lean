import FragmentParser.Catalog
import FragmentParser.Proofs.Memo.Design
import FragmentParser.Proofs.Outline.Design

/-!
# The bundled grammars end

Both bundled grammars have a design, so that their parses end with the bound that the catalog gives
them, and a larger one would make no difference.
-/

namespace FragmentParser

/-- The bound that the catalog gives a parse is enough for every parser with a design. -/
theorem Design.Describes.exists_run {C S Y E N : Type} [DecidableEq S] [DecidableEq Y]
    [Constructor C] [Diagnostic S] [Diagnostic Y] {d : Design C String S E N}
    {p : Parser C String S Y N} (h : d.Describes p) (chunks : List String) :
    ∃ outcome e, ∀ bound, chunkBound chunks ≤ bound →
      p.run bound (.ofList chunks) = some (outcome, e) := by
  obtain ⟨outcome, e, hrun⟩ := Parser.exists_run_of_takesFirst h.takesFirst chunks
  refine ⟨outcome, e, fun bound hle ↦ hrun bound ?_⟩
  rw [chunkBound] at hle
  omega

/-- **Termination.** If all constructors that a parser may run besides the initial one take a
fragment first, directly or through one of lower rank, then every parse has an outcome, which is the
same for all bounds from a certain one on; whatever the rules are and however the states are
replaced. In particular every parse of the bundled grammars has an outcome, and the bound of the
catalog suffices for it. -/
theorem terminates :
    (∀ {C F S Y N : Type} [DecidableEq S] [DecidableEq Y] [Constructor C] [Diagnostic F]
      [Diagnostic S] [Diagnostic Y] (p : Parser C F S Y N) (rank : C → Nat) (top : Nat),
      p.TakesFirst rank top → ∀ fragments : List F, ∃ outcome d, ∀ bound,
        (top + 1) * (fragments.length + 1) ≤ bound →
          p.run bound (.ofList fragments) = some (outcome, d)) ∧
    (∀ chunks : List String, ∃ outcome d, ∀ bound, chunkBound chunks ≤ bound →
      Memo.parser.run bound (.ofList chunks) = some (outcome, d)) ∧
    ∀ chunks : List String, ∃ outcome d, ∀ bound, chunkBound chunks ≤ bound →
      Outline.parser.run bound (.ofList chunks) = some (outcome, d) :=
  ⟨fun _ _ _ hp ↦ Parser.exists_run_of_takesFirst hp, Memo.describes.exists_run,
    Outline.describes.exists_run⟩

end FragmentParser
