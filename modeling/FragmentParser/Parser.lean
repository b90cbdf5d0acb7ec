import FragmentParser.Session

/-!
# Parsers

A parser is a grammar together with the recipes of its constructors. Running it is a mutual
recursion of two activities:

* **building children** (`buildChildren`): recognize the head fragment, look up the transition, run
  the constructor that it names, and again, until the frame stops or the input ends;
* **running a constructor** (`runConstructor`): open a frame, follow the recipe, close the frame.

An iteration that takes no fragment and leaves the current state alone would repeat itself, so it
ends the parse as stalled.

A constructor may run itself without taking a fragment, so a parse need not end. The recursion is on
a **bound**, which limits how deep frames nest and how many children a frame may have; a parse that
exceeds its bound has no outcome (`none`), which is not the same as an error.
-/

namespace FragmentParser

/-- A grammar and what its constructors do. -/
structure Parser (C F S Y N : Type) where
  /-- The table. -/
  grammar : Grammar C F S Y
  /-- The recipe of each constructor; it may end without a node. -/
  recipe : C → Recipe C F S Y N (Option N)

/-- The outcome of an activity and the session after it, unless the bound was exceeded. -/
abbrev Reply (C F S Y α : Type) : Type := Option (Except ParseError α × Session C F S Y)

/-- The nodes built for a parent, the ending, and the session, unless the bound was exceeded. -/
abbrev Harvest (C F S Y N : Type) : Type :=
  Option (List N × Ending S × Session C F S Y)

namespace Recipe

variable {C F S Y N α : Type} [DecidableEq S] [DecidableEq Y]

/-- Follow a recipe, given how children are built and how a constructor is run. -/
def follow (g : Grammar C F S Y) (build : Session C F S Y → Harvest C F S Y N)
    (run : C → Option S → Session C F S Y → Reply C F S Y (Option N)) :
    Recipe C F S Y N α → Session C F S Y → Reply C F S Y α
  | .done outcome, d => some (outcome, d)
  | .peek k, d => (k d.peek.1).follow g build run d.peek.2
  | .take k, d => (k d.take.1).follow g build run d.take.2
  | .inspect k, d => (k d.stack g.view).follow g build run d
  | .children parent k, d =>
    match build (d.record (.children parent)) with
    | none => none
    | some (nodes, ending, d) => (k nodes ending.outcome).follow g build run d
  | .child c s k, d =>
    match run c s d with
    | none => none
    | some (outcome, d) => (k outcome).follow g build run d

end Recipe

namespace Parser

variable {C F S Y N : Type} [DecidableEq S] [DecidableEq Y] [Constructor C]
  [Diagnostic F] [Diagnostic S] [Diagnostic Y]

/-- Build children until the frame stops, given how a constructor is run; at most `bound`
iterations. -/
def buildChildren (g : Grammar C F S Y)
    (run : C → Option S → Session C F S Y → Reply C F S Y (Option N)) :
    (bound : Nat) → Session C F S Y → Harvest C F S Y N
  | 0, _ => none
  | bound + 1, d =>
    match d.judge g with
    | (.finish ending, d) => some ([], ending, d)
    | (.construct c s, d) =>
      match run c s (d.share c s) with
      | none => none
      | some (.error e, d') => some ([], .childFailed e, d')
      | some (.ok node, d') =>
        if d'.taken = d.taken ∧ d'.state = d.state then
          some ([], .failed (.stalled (Constructor.name c) (text d.state)), d')
        else
          match buildChildren g run bound d' with
          | none => none
          | some (nodes, ending, d'') => some (node.toList ++ nodes, ending, d'')

/-- Run a constructor in a frame of its own, with frames nested at most `bound` deep. The frame is
closed whatever the outcome. -/
def runConstructor (p : Parser C F S Y N) :
    (bound : Nat) → C → Option S → Session C F S Y → Reply C F S Y (Option N)
  | 0, _, _, _ => none
  | bound + 1, c, s, d =>
    match (p.recipe c).follow p.grammar
        (buildChildren p.grammar (runConstructor p bound) bound) (runConstructor p bound)
        (d.openFrame s) with
    | none => none
    | some (outcome, d) => some (outcome, d.closeFrame)

/-- Run the initial constructor in the root frame; it has to return a node. -/
def run (p : Parser C F S Y N) (bound : Nat) (reader : Lookahead F) : Reply C F S Y N :=
  let c := p.grammar.initialConstructor
  match (p.recipe c).follow p.grammar
      (buildChildren p.grammar (runConstructor p bound) bound) (runConstructor p bound)
      (Session.start reader p.grammar.initialState) with
  | none => none
  | some (.error e, d) => some (.error e, d)
  | some (.ok none, d) => some (.error (.emptyRoot (Constructor.name c)), d)
  | some (.ok (some node), d) => some (.ok node, d)

end Parser

end FragmentParser
