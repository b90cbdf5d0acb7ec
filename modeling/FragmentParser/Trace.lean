import FragmentParser.Number.Digits
import FragmentParser.Rule

/-!
# Traces

A parse records every decision as a **step**: what happened (`Event`) and the state stack at that
moment. A step is written as one line, indented by its depth and headed by the stack.
-/

namespace FragmentParser

/-- One thing that a parse did. -/
inductive Event (C F S Y : Type) where
  /-- Children are being built into a parent of the named type. -/
  | children (parent : String)
  /-- The head fragment was compared with the applicable symbols. -/
  | analyzed (fragment : F) (candidates : List Y) (matched : Option Y)
  /-- There was no head fragment. -/
  | exhausted
  /-- The rule for a state and symbol yielded a transition. -/
  | transition (state : S) (symbol : Y) (transition : Transition C S)
  /-- The innermost frame was put into another state. -/
  | topReplaced (old new : S)
  /-- The frame enclosing the innermost one was put into another state. -/
  | callerReplaced (old new : S)

/-- An event with the state stack at that moment. -/
structure Step (C F S Y : Type) where
  /-- The state stack. -/
  stack : StateStack S
  /-- What happened. -/
  event : Event C F S Y

variable {C F S Y : Type} [Constructor C] [Diagnostic F] [Diagnostic S] [Diagnostic Y]

/-- The text of an event. -/
def Event.shown : Event C F S Y → String
  | .children parent => "make_children(" ++ parent ++ ")"
  | .analyzed fragment candidates (some y) =>
    text y ++ " matched " ++ fragmentText fragment ++ " (of " ++
      decimalText candidates.length ++ ")"
  | .analyzed fragment candidates none =>
    "nothing matched " ++ fragmentText fragment ++ " (tried " ++ listText candidates ++ ")"
  | .exhausted => "end of input"
  | .transition s y t => "(" ++ text s ++ ", " ++ text y ++ ") -> " ++ t.shown
  | .topReplaced old new => "top " ++ text old ++ " -> " ++ text new
  | .callerReplaced old new => "caller " ++ text old ++ " -> " ++ text new

/-- The line of a step: two spaces for each enclosing frame, the stack, and the event. -/
def Step.line (step : Step C F S Y) : String :=
  "".pushn ' ' (2 * (step.stack.depth - 1)) ++ step.stack.path ++ ": " ++ step.event.shown

end FragmentParser
