/-!
# Diagnostic text

States, symbols and fragments are values of types the engine knows nothing about, yet traces and
error messages have to name them. `Diagnostic` is the one thing asked of such a type: a **text for
people**. A fragment's text is quoted (`FragmentParser.Text.Quoted`), a state's or symbol's is its
bare name.
-/

namespace FragmentParser

/-- A type whose values have a text for messages and traces. -/
class Diagnostic (α : Type) where
  /-- The text that stands for the value. -/
  text : α → String

export Diagnostic (text)

/-- A bare name, shown as it is; the states and symbols of a grammar that is described as data. -/
structure Name where
  /-- The characters of the name. -/
  value : String
deriving DecidableEq, Inhabited

instance : Diagnostic Name := ⟨Name.value⟩

/-- The texts of a list between square brackets, with commas. -/
def listText {α : Type} [Diagnostic α] (xs : List α) : String :=
  "[" ++ ", ".intercalate (xs.map text) ++ "]"

end FragmentParser
