import FragmentParser.Grammar.Basic

/-!
# Drafts of grammars

A grammar is written as one chain of additions to an empty draft, and `Draft.build` **checks the
whole draft once**: an initial state must be set, no symbol may be registered twice, and every rule
must be about a registered symbol and be the only one for its state and symbol. Faults are looked
for in that order, and the first one is reported.
-/

namespace FragmentParser

/-- What is wrong with a draft. -/
inductive GrammarError where
  /-- No initial state and constructor were set. -/
  | missingInitial
  /-- A symbol was registered a second time. -/
  | duplicateRecognizer (symbol : String)
  /-- A rule is about a symbol that was not registered. -/
  | unknownSymbol (state symbol : String)
  /-- A state and symbol were given a second rule. -/
  | duplicateTransition (state symbol : String)
deriving DecidableEq

/-- The message for a fault. -/
def GrammarError.message : GrammarError → String
  | .missingInitial => "grammar has no initial state and constructor"
  | .duplicateRecognizer y => "recognizer for symbol " ++ y ++ " is registered twice"
  | .unknownSymbol s y =>
    "transition (" ++ s ++ ", " ++ y ++ ") refers to a symbol with no recognizer"
  | .duplicateTransition s y => "transition (" ++ s ++ ", " ++ y ++ ") is defined twice"

/-- A grammar being assembled; nothing is checked yet. -/
structure Grammar.Draft (C F S Y : Type) where
  /-- The recognizers so far. -/
  recognizers : List (Y × (F → Bool))
  /-- The rules so far. -/
  rules : List ((S × Y) × Rule C S Y)
  /-- The initial state and constructor, once they are set. -/
  initial : Option (S × C)

namespace Grammar.Draft

variable {C F S Y : Type}

/-- A draft with nothing in it. -/
def empty : Draft C F S Y := ⟨[], [], none⟩

/-- Register a symbol, behind all others. -/
def recognizer (d : Draft C F S Y) (y : Y) (accepts : F → Bool) : Draft C F S Y :=
  { d with recognizers := d.recognizers ++ [(y, accepts)] }

/-- Add a rule for symbol `y` in state `s`. -/
def rule (d : Draft C F S Y) (s : S) (y : Y) (r : Rule C S Y) : Draft C F S Y :=
  { d with rules := d.rules ++ [((s, y), r)] }

/-- Add a rule that always yields the transition `t`. -/
def transition (d : Draft C F S Y) (s : S) (y : Y) (t : Transition C S) : Draft C F S Y :=
  d.rule s y (.fixed t)

/-- Add the same transition for several states. -/
def transitions (d : Draft C F S Y) (states : List S) (y : Y) (t : Transition C S) :
    Draft C F S Y :=
  states.foldl (fun d s ↦ d.transition s y t) d

/-- Add a rule that computes its transition. -/
def computed (d : Draft C F S Y) (s : S) (y : Y) (compute : Y → StateStack S → Transition C S) :
    Draft C F S Y :=
  d.rule s y (.computed compute)

/-- Set where a parse begins, in place of what was set before. -/
def startingAt (d : Draft C F S Y) (s : S) (c : C) : Draft C F S Y :=
  { d with initial := some (s, c) }

/-! ### Checking -/

/-- The first entry that already occurs before it. -/
def firstRepeated {α : Type} [DecidableEq α] (seen : List α) : List α → Option α
  | [] => none
  | x :: xs => if x ∈ seen then some x else firstRepeated (x :: seen) xs

variable [DecidableEq S] [DecidableEq Y] [Diagnostic S] [Diagnostic Y]

/-- The first rule, by its state and symbol, that is about no registered symbol or repeats one of
the rules before it. -/
def firstFault (registered : List Y) (seen : List (S × Y)) : List (S × Y) → Option GrammarError
  | [] => none
  | (s, y) :: rest =>
    if y ∉ registered then some (.unknownSymbol (text s) (text y))
    else if (s, y) ∈ seen then some (.duplicateTransition (text s) (text y))
    else firstFault registered ((s, y) :: seen) rest

/-- The grammar of a draft without faults, or the first fault. -/
def build (d : Draft C F S Y) : Except GrammarError (Grammar C F S Y) :=
  match d.initial with
  | none => .error .missingInitial
  | some (s, c) =>
    match firstRepeated [] (d.recognizers.map Prod.fst) with
    | some y => .error (.duplicateRecognizer (text y))
    | none =>
      match firstFault (d.recognizers.map Prod.fst) [] (d.rules.map Prod.fst) with
      | some fault => .error fault
      | none => .ok ⟨d.recognizers, d.rules, s, c⟩

end Grammar.Draft

end FragmentParser
