import FragmentParser.StateStack
import FragmentParser.Text.Quoted

/-!
# Rules

An entry of a grammar's table says what follows once a symbol has been recognized in a state. A
**transition** either runs a constructor, or stops the frame, or stops it and sends the enclosing
frame to another state. A **rule** yields a transition: a fixed one, or one computed from the
recognized symbol and the whole state stack.

Constructors appear here as *handles* only, values of a type `C` with a name and a frame mode
(`Constructor`); what a constructor does is its recipe, which the table does not know.
-/

namespace FragmentParser

/-- What a constructor's frame means for the state that a transition names. -/
inductive Frame where
  /-- The constructor's frame shares the state with its caller, who moves to it as well. -/
  | shared
  /-- The constructor's frame alone is in that state. -/
  | own
deriving DecidableEq

/-- The word for a frame mode. -/
def Frame.word : Frame → String
  | .shared => "Shared"
  | .own => "Own"

/-- What the current frame's stack becomes before a constructor with this frame mode runs in state
`s`. -/
def StateStack.share {S : Type} (σ : StateStack S) : Frame → Option S → StateStack S
  | .shared, some s => σ.replaceTop s
  | _, _ => σ

@[simp] theorem StateStack.below_share {S : Type} (σ : StateStack S) (f : Frame) (s : Option S) :
    (σ.share f s).below = σ.below := by
  cases f <;> cases s <;> rfl

@[simp] theorem StateStack.depth_share {S : Type} (σ : StateStack S) (f : Frame) (s : Option S) :
    (σ.share f s).depth = σ.depth := by
  rw [depth, depth, below_share]

/-- A type of constructor handles. -/
class Constructor (C : Type) where
  /-- The name in traces and messages. -/
  name : C → String
  /-- Whether the constructor has its state to itself. -/
  frame : C → Frame

/-- The text of a constructor handle with its parts. -/
def Constructor.debugText {C : Type} [Constructor C] (c : C) : String :=
  "Constructor \x7b name: " ++ Text.quote (Constructor.name c) ++ ", frame: " ++
    (Constructor.frame c).word ++ " \x7d"

/-- A constructor known by its name and frame mode alone. -/
structure Handle where
  /-- The name of the constructor. -/
  name : String
  /-- Its frame mode. -/
  frame : Frame
deriving DecidableEq

instance : Constructor Handle := ⟨Handle.name, Handle.frame⟩

/-- What happens once a symbol has been recognized. -/
inductive Transition (C S : Type) where
  /-- Run a constructor, in the given state or in a copy of the current one. -/
  | construct (constructor : C) (state : Option S)
  /-- Stop the frame; its node is complete. -/
  | stop
  /-- Stop the frame and put the enclosing one into the given state. -/
  | redirect (state : S)
deriving DecidableEq

namespace Transition

variable {C S : Type}

/-- Run `c` in a copy of the current state. -/
def child (c : C) : Transition C S := .construct c none

/-- Run `c` in state `s`. -/
def childIn (c : C) (s : S) : Transition C S := .construct c (some s)

variable [Constructor C] [Diagnostic S]

/-- The text of a transition in a trace. -/
def shown : Transition C S → String
  | .construct c none => Constructor.name c ++ "()"
  | .construct c (some s) => Constructor.name c ++ "(), " ++ text s
  | .stop => "stop"
  | .redirect s => "stop, redirect caller to " ++ text s

/-- The text of a transition with all its parts. -/
def debugText : Transition C S → String
  | .construct c s =>
    let state := match s with
      | none => "None"
      | some s => "Some(" ++ text s ++ ")"
    "Construct \x7b constructor: " ++ Constructor.debugText c ++ ", state: " ++ state ++ " \x7d"
  | .stop => "Stop"
  | .redirect s => "Redirect(" ++ text s ++ ")"

end Transition

/-- How a table entry yields its transition. -/
inductive Rule (C S Y : Type) where
  /-- Always the same transition. -/
  | fixed (transition : Transition C S)
  /-- A transition that depends on the recognized symbol and the state stack. -/
  | computed (compute : Y → StateStack S → Transition C S)

namespace Rule

variable {C S Y : Type}

/-- The transition that a rule yields for a symbol under a state stack. -/
def resolve (symbol : Y) (stack : StateStack S) : Rule C S Y → Transition C S
  | .fixed transition => transition
  | .computed compute => compute symbol stack

/-- The text of a rule with its parts; a computed rule shows none. -/
def debugText [Constructor C] [Diagnostic S] : Rule C S Y → String
  | .fixed transition => "Static(" ++ transition.debugText ++ ")"
  | .computed _ => "Computed(..)"

end Rule

end FragmentParser
