import FragmentParser.Diagnostic
import FragmentParser.Text.Graphic

/-!
# Quoted text

The form in which diagnostics show a text: between double quotes, with the quote, the backslash and
the common control characters written as backslash escapes and every other character that is not
graphic by its code point. A text whose quoted form is longer than ninety characters is **cut** to
its beginning and its end.
-/

namespace FragmentParser.Text

/-- One character inside quotes. -/
def quoteChar (c : Char) : List Char :=
  match c with
  | '\x00' => ['\\', '0']
  | '\t' => ['\\', 't']
  | '\n' => ['\\', 'n']
  | '\r' => ['\\', 'r']
  | '"' => ['\\', '"']
  | '\\' => ['\\', '\\']
  | c =>
    if isGraphic c then [c]
    else ['\\', 'u', '\x7b'] ++ Nat.toDigits 16 c.toNat ++ ['\x7d']

/-- The text between double quotes, as diagnostics show it. -/
def quote (s : String) : String :=
  String.ofList ('"' :: (s.toList.flatMap quoteChar ++ ['"']))

/-- The longest text that a diagnostic shows in full. -/
def diagnosticLimit : Nat := 90

/-- How much of the beginning of a longer text is shown. -/
def diagnosticHead : Nat := 25

/-- How much of the end of a longer text is shown. -/
def diagnosticTail : Nat := 10

/-- The text itself, or the two ends of one that is too long. -/
def abridge (s : String) : String :=
  let cs := s.toList
  if cs.length ≤ diagnosticLimit then s
  else
    String.ofList (cs.take diagnosticHead ++ " [...] ".toList ++
      cs.drop (cs.length - diagnosticTail))

example : quote "a\"\\\t\u200b" = "\"a\\\"\\\\\\t\\u\x7b200b\x7d\"" := by decide +kernel

end FragmentParser.Text

namespace FragmentParser

/-- A text is shown between quotes. -/
instance : Diagnostic String := ⟨Text.quote⟩

/-- The text of a fragment in a message: cut when it is long. -/
def fragmentText {F : Type} [Diagnostic F] (fragment : F) : String := Text.abridge (text fragment)

end FragmentParser
