import FragmentParser.Number.Digits
import FragmentParser.Rule

/-!
# Grammars

A grammar is a **table**: recognizers in their order of registration, the rules for pairs of a state
and a symbol, and where a parse begins. In a state only the symbols that have a rule there are
*applicable*; among them the first one, in the order of the recognizers, whose recognizer accepts
the fragment wins (`recognize`).

Constructors know a grammar by its answers (`Grammar.View`). In what order the rules were registered
is not among them.

Grammars are assembled as drafts (`FragmentParser.Grammar.Draft`) and checked once.
-/

namespace FragmentParser

/-- The table that drives a parse: fragments of type `F` are recognized as symbols of type `Y` in
states of type `S`, and rules name constructors of type `C`. -/
structure Grammar (C F S Y : Type) where
  /-- The symbols with their recognizers, in order of precedence. -/
  recognizers : List (Y × (F → Bool))
  /-- The rules, each with its state and symbol. -/
  rules : List ((S × Y) × Rule C S Y)
  /-- The state of the root. -/
  initialState : S
  /-- The constructor of the root. -/
  initialConstructor : C

namespace Grammar

variable {C F S Y : Type} [DecidableEq S] [DecidableEq Y]

/-- The symbols in order of precedence. -/
def symbols (g : Grammar C F S Y) : List Y := g.recognizers.map Prod.fst

/-- The rule for a symbol in a state. -/
def rule? (g : Grammar C F S Y) (s : S) (y : Y) : Option (Rule C S Y) := g.rules.lookup (s, y)

/-- The symbols that have a rule in state `s`, in order of precedence. -/
def applicable (g : Grammar C F S Y) (s : S) : List Y :=
  g.symbols.filter fun y ↦ (g.rule? s y).isSome

/-- The symbol of a fragment in state `s`: the first applicable one whose recognizer accepts it. -/
def recognize (g : Grammar C F S Y) (s : S) (fragment : F) : Option Y :=
  (g.recognizers.find? fun (y, accepts) ↦ (g.rule? s y).isSome && accepts fragment).map Prod.fst

/-- A recognized symbol has a rule, so the table always answers for it. -/
theorem rule?_of_recognize {g : Grammar C F S Y} {s : S} {fragment : F} {y : Y}
    (h : g.recognize s fragment = some y) : (g.rule? s y).isSome = true := by
  simp only [recognize, Option.map_eq_some_iff] at h
  obtain ⟨⟨z, accepts⟩, hz, rfl⟩ := h
  have hz' := List.find?_some hz
  simp only [Bool.and_eq_true] at hz'
  exact hz'.1

/-- What can be asked of a grammar. The rules can be looked up and counted, but they have no order.
-/
structure View (C F S Y : Type) where
  /-- The symbols in order of precedence. -/
  symbols : List Y
  /-- The symbols that have a rule in a state, in order of precedence. -/
  applicable : S → List Y
  /-- The symbol of a fragment in a state. -/
  recognize : S → F → Option Y
  /-- The rule for a symbol in a state. -/
  rule? : S → Y → Option (Rule C S Y)
  /-- How many rules there are. -/
  ruleCount : Nat
  /-- The state of the root. -/
  initialState : S
  /-- The constructor of the root. -/
  initialConstructor : C

/-- The answers of a grammar to all that can be asked. -/
def view (g : Grammar C F S Y) : View C F S Y :=
  ⟨g.symbols, g.applicable, g.recognize, g.rule?, g.rules.length, g.initialState,
    g.initialConstructor⟩

/-- The text of a grammar with its parts. -/
def debugText [Constructor C] [Diagnostic S] [Diagnostic Y] (g : Grammar C F S Y) : String :=
  "Grammar \x7b symbols: " ++ listText g.symbols ++ ", transitions: " ++
    decimalText g.rules.length ++ ", initial_state: " ++ text g.initialState ++
    ", initial_constructor: " ++ Text.quote (Constructor.name g.initialConstructor) ++ " \x7d"

end Grammar

end FragmentParser
