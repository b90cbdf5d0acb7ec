import FragmentParser.Grammar.Basic
import FragmentParser.Lookahead
import FragmentParser.ParseError

/-!
# Recipes: what constructors do

A constructor's work is a **recipe**, a finite program over the operations that a parse offers it:
look at the next fragment, take it, look around, have children built, run one other constructor.
Being data, recipes can be quantified over, and every statement about *all constructors* is a
statement about all recipes.

An operation that can fail hands its outcome to the rest of the recipe, which may go on regardless.
The combinators at the end of the module (`Recipe.next`, `Recipe.childrenOf`, `Recipe.childOf`) are
those of a recipe that **passes errors on**, which all recipes of this library do.
-/

namespace FragmentParser

/-- A program over the operations of a parse that ends with a value of type `α` or an error. -/
inductive Recipe (C F S Y N α : Type) where
  /-- End with this outcome. -/
  | done (outcome : Except ParseError α)
  /-- Look at the next fragment; it stays. -/
  | peek (andThen : Option F → Recipe C F S Y N α)
  /-- Take the next fragment, if there is one. -/
  | take (andThen : Option F → Recipe C F S Y N α)
  /-- Look at the state stack and the grammar. -/
  | inspect (andThen : StateStack S → Grammar.View C F S Y → Recipe C F S Y N α)
  /-- Build children for a parent of the named type until the frame stops. The nodes built are
  handed over even if an error ended the building. -/
  | children (parent : String) (andThen : List N → Except ParseError Unit → Recipe C F S Y N α)
  /-- Run one constructor in a frame of its own, in the given state or in a copy of the current
  one. It may return no node. -/
  | child (constructor : C) (state : Option S)
      (andThen : Except ParseError (Option N) → Recipe C F S Y N α)

namespace Recipe

variable {C F S Y N α β : Type}

/-- Run a recipe and then the one that its value selects; an error ends both. -/
def bind (r : Recipe C F S Y N α) (f : α → Recipe C F S Y N β) : Recipe C F S Y N β :=
  match r with
  | .done (.ok a) => f a
  | .done (.error e) => .done (.error e)
  | .peek k => .peek fun x ↦ (k x).bind f
  | .take k => .take fun x ↦ (k x).bind f
  | .inspect k => .inspect fun σ g ↦ (k σ g).bind f
  | .children parent k => .children parent fun nodes outcome ↦ (k nodes outcome).bind f
  | .child c s k => .child c s fun outcome ↦ (k outcome).bind f

instance : Monad (Recipe C F S Y N) where
  pure a := .done (.ok a)
  bind := bind

/-- End with an error. -/
def fail (e : ParseError) : Recipe C F S Y N α := .done (.error e)

/-- The next fragment, which stays. -/
def look : Recipe C F S Y N (Option F) := .peek pure

/-- Take the next fragment, if there is one. -/
def tryNext : Recipe C F S Y N (Option F) := .take pure

/-- The state stack. -/
def stack : Recipe C F S Y N (StateStack S) := .inspect fun σ _ ↦ pure σ

/-- Take the next fragment, and fail if there is none. -/
def next [Diagnostic S] : Recipe C F S Y N F :=
  .take fun
    | some fragment => pure fragment
    | none => .inspect fun σ _ ↦ fail (.endOfInput (text σ.top))

/-- The children of a parent of the named type. -/
def childrenOf (parent : String) : Recipe C F S Y N (List N) :=
  .children parent fun nodes outcome ↦ .done (outcome.map fun _ ↦ nodes)

/-- The node of constructor `c`, if it returns one. -/
def childOf (c : C) (s : Option S) : Recipe C F S Y N (Option N) := .child c s .done

end Recipe

end FragmentParser
