import FragmentParser.Text.Quoted

/-!
# Parse errors

What can go wrong while a grammar runs. An error holds the **texts** of the states, symbols and
fragments concerned and not the values, so that errors of all grammars have one type.
-/

namespace FragmentParser

/-- Why a parse ended without a tree. -/
inductive ParseError where
  /-- No recognizer that is applicable in the state accepts the fragment. -/
  | noRecognizerMatch (fragment state : String) (tried : List String)
  /-- The table has no rule for the recognized symbol. -/
  | noTransition (state symbol : String)
  /-- The root was told to redirect the frame that encloses it. -/
  | noAncestor (state : String)
  /-- A constructor needed a fragment and the input had none. -/
  | endOfInput (state : String)
  /-- A constructor left everything as it was, so the same would happen again. -/
  | stalled (constructor state : String)
  /-- The root constructor returned no node. -/
  | emptyRoot (constructor : String)
  /-- A constructor reported an error of its own. -/
  | construct (constructor message : String)
deriving DecidableEq

/-- The message for an error. -/
def ParseError.message : ParseError → String
  | .noRecognizerMatch fragment state tried =>
    "no recognizer matched " ++ fragment ++ " in state " ++ state ++ " (tried " ++
      ", ".intercalate tried ++ ")"
  | .noTransition state symbol => "no transition for (" ++ state ++ ", " ++ symbol ++ ")"
  | .noAncestor state => "cannot redirect from " ++ state ++ ": it has no enclosing state"
  | .endOfInput state =>
    "input ended while a fragment was still expected in state " ++ state
  | .stalled constructor state =>
    constructor ++ "() consumed nothing in state " ++ state ++ "; the parse would never end"
  | .emptyRoot constructor => "initial constructor " ++ constructor ++ "() produced no root"
  | .construct constructor message => constructor ++ "(): " ++ message

end FragmentParser
