import FragmentParser.Catalog

/-!
# Blueprints: grammars described as data

A blueprint describes a whole parser over chunks of text without any function in it: recognizers are
chosen from a few predicates, computed rules are lists of cases, and constructors are lists of
steps. `Blueprint.parser?` is the parser that it describes, or the first fault of its table.
-/

namespace FragmentParser

open Text

namespace Blueprint

/-- A recognizer from the stock. -/
inductive Predicate where
  /-- Every fragment. -/
  | any
  /-- No fragment. -/
  | never
  /-- The fragment itself. -/
  | equals (s : String)
  /-- Fragments that begin like this. -/
  | startsWith (s : String)
  /-- Fragments that end like this. -/
  | endsWith (s : String)
  /-- Fragments with this inside. -/
  | contains (s : String)
  /-- Fragments of at least so many characters. -/
  | atLeast (n : Nat)

/-- Whether a predicate accepts a fragment. -/
def Predicate.accepts (p : Predicate) (fragment : String) : Bool :=
  let cs := fragment.toList
  match p with
  | .any => true
  | .never => false
  | .equals s => fragment = s
  | .startsWith s => s.toList.isPrefixOf cs
  | .endsWith s => s.toList.isSuffixOf cs
  | .contains s => Text.contains s.toList cs
  | .atLeast n => n ≤ cs.length

/-- The transitions of blueprints. -/
abbrev Move : Type := Transition Handle Name

/-- One case of a computed rule: conditions, of which those that are given must all hold, and the
transition. -/
structure Case where
  /-- Some frame is in this state. -/
  has : Option Name
  /-- The current frame is in this state. -/
  top : Option Name
  /-- At least so many frames are open. -/
  depth : Option Nat
  /-- This symbol was recognized. -/
  symbol : Option Name
  /-- What happens then. -/
  move : Move

/-- Whether all conditions of a case hold. -/
def Case.holds (c : Case) (symbol : Name) (stack : StateStack Name) : Bool :=
  c.has.all (stack.contains ·) && c.top.all (· = stack.top) && c.depth.all (· ≤ stack.depth) &&
    c.symbol.all (· = symbol)

/-- A list of cases, tried in order, and what happens if none holds. -/
structure Choice where
  /-- The cases. -/
  cases : List Case
  /-- The transition when no case holds. -/
  otherwise : Move

/-- The transition that a choice comes to. -/
def Choice.move (choice : Choice) (symbol : Name) (stack : StateStack Name) : Move :=
  ((choice.cases.find? (·.holds symbol stack)).map Case.move).getD choice.otherwise

/-- One step of a constructor, which fills the element that it builds. -/
inductive Task where
  /-- Take a fragment as a run of text. -/
  | text
  /-- Take a fragment as an attribute. -/
  | attribute (name : String)
  /-- Take a fragment and forget it. -/
  | skip
  /-- Take a fragment as a run of text if there is one. -/
  | tryText
  /-- Look at the next fragment and note it as an attribute. -/
  | peek
  /-- Build children. -/
  | children
  /-- Build children as a list, and note how many they are. -/
  | nodes
  /-- Run one constructor by name. -/
  | child (constructor : String) (state : Option Name)
  /-- Note the state stack, the state, the depth and the number of applicable symbols. -/
  | whereabouts (name : String)
  /-- Report an error. -/
  | fail (message : String)

/-- A constructor. -/
structure Plan where
  /-- Its name and frame mode. -/
  handle : Handle
  /-- The kind of element it builds. -/
  kind : String
  /-- Its steps. -/
  tasks : List Task
  /-- Whether it returns the element. -/
  returnsNode : Bool

end Blueprint

/-- A description of a parser. -/
structure Blueprint where
  /-- Symbols with their recognizers. -/
  recognizers : List (Name × Blueprint.Predicate)
  /-- Rules, each for some states and a symbol. -/
  rules : List (List Name × Name × (Blueprint.Move ⊕ Blueprint.Choice))
  /-- Initial states with constructors; the last one counts. -/
  initial : List (Name × Handle)
  /-- The constructors. -/
  plans : List Blueprint.Plan

namespace Blueprint

/-- The recipes of blueprints. -/
abbrev Work (α : Type) : Type := Recipe Handle String Name Name Node α

/-- The text that stands for a missing fragment. -/
def endMark : String := "(end)"

/-- The text that stands for a missing node. -/
def noneMark : String := "(none)"

/-- The constructor of a name. -/
def plan? (b : Blueprint) (name : String) : Option Plan := b.plans.find? (·.handle.name = name)

/-- Follow one step of the constructor called `own`. -/
def work (b : Blueprint) (own : String) (e : Element) : Task → Work Element
  | .text => do return e.withText (← Recipe.next)
  | .attribute name => do return e.withAttribute name (← Recipe.next)
  | .skip => do
    let _ ← Recipe.next
    return e
  | .tryText => do return e.withText ((← Recipe.tryNext).getD endMark)
  | .peek => do return e.withAttribute "peek" ((← Recipe.look).getD endMark)
  | .children => do return e.appendAll (← Recipe.childrenOf "Element")
  | .nodes => do
    let nodes ← Recipe.childrenOf "Vec<Node>"
    return (e.withAttribute "count" (decimalText nodes.length)).appendAll nodes
  | .child name state =>
    match b.plan? name with
    | none => Recipe.fail (.construct "driver" ("constructor " ++ name))
    | some plan => do
      return e.append ((← Recipe.childOf plan.handle state).getD (.text noneMark))
  | .whereabouts name =>
    .inspect fun stack g ↦
      return e.withAttribute name
        (" ".intercalate [stack.path, text stack.top, decimalText stack.depth,
          decimalText (g.applicable stack.top).length])
  | .fail message => Recipe.fail (.construct own message)

/-- Follow the steps of a constructor in order. -/
def workAll (b : Blueprint) (own : String) (e : Element) : List Task → Work Element
  | [] => return e
  | task :: tasks => do
    let e ← b.work own e task
    b.workAll own e tasks

/-- What a constructor does. One that the blueprint does not have returns nothing. -/
def recipe (b : Blueprint) (handle : Handle) : Work (Option Node) :=
  match b.plan? handle.name with
  | none => return none
  | some plan => do
    let e ← b.workAll plan.handle.name (Element.ofKind plan.kind) plan.tasks
    return if plan.returnsNode then some e.toNode else none

/-- The table as a draft: recognizers, then rules, then the initial constructors. -/
def draft (b : Blueprint) : Grammar.Draft Handle String Name Name :=
  let d := b.recognizers.foldl (fun d (y, p) ↦ d.recognizer y p.accepts) Grammar.Draft.empty
  let d := b.rules.foldl (fun d (states, y, entry) ↦
    match entry with
    | .inl move => d.transitions states y move
    | .inr choice => states.foldl (fun d s ↦ d.computed s y choice.move) d) d
  b.initial.foldl (fun d (s, c) ↦ d.startingAt s c) d

/-- The parser that a blueprint describes. -/
def parser? (b : Blueprint) : Except GrammarError (Parser Handle String Name Name Node) :=
  b.draft.build.map fun g ↦ ⟨g, b.recipe⟩

/-- The bound of a parse from a blueprint. Whether such a parse ends cannot be told from its
description, and a parse that ends stays far below this. -/
def bound : Nat := 1000000

end Blueprint

end FragmentParser
