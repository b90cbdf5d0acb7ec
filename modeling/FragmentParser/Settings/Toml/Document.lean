import FragmentParser.Settings.Toml.Value

/-!
# TOML documents

A document is a sequence of lines: headers of tables, headers of lists of tables, keys with their
values, comments, and blank lines. A key belongs to the table of the last header before it. One
fault makes the whole document unreadable.
-/

namespace FragmentParser.Settings.Toml

/-- The path that a header names. -/
def pathOf : List String × String → List String
  | (path, last) => path ++ [last]

/-- The line at the beginning of a text: what it makes of the header that counts and of the entries
so far, and the text behind it. -/
def line (header : List String) (entries : List (String × Entry)) (cs : List Char) :
    Option ((List String × List (String × Entry)) × List Char) :=
  match skipSpace cs with
  | '[' :: '[' :: rest => do
    let ((path, last), rest) ← key rest
    let rest ← restOfLine (← mark ']' (← mark ']' rest))
    some ((pathOf (path, last), ← Entry.openItem path last entries), rest)
  | '[' :: rest => do
    let ((path, last), rest) ← key rest
    let rest ← restOfLine (← mark ']' rest)
    some ((pathOf (path, last), ← Entry.openTable path last entries), rest)
  | cs =>
    match restOfLine cs with
    | some rest => some ((header, entries), rest)
    | none => do
      let ((path, last), rest) ← key cs
      let (v, rest) ← value (skipSpace (← mark '=' rest))
      let rest ← restOfLine rest
      some ((header, ← Entry.assignWithin header path last v entries), rest)

/-- The entries of a text with at most `bound` lines, given what came before. -/
def linesUpTo : (bound : Nat) → List String → List (String × Entry) → List Char →
    Option (List (String × Entry))
  | _, _, entries, [] => some entries
  | 0, _, _, _ :: _ => none
  | bound + 1, header, entries, cs => do
    let ((header, entries), rest) ← line header entries cs
    linesUpTo bound header entries rest

/-- The text without a byte order mark at its beginning. -/
def skipMark : List Char → List Char
  | '\ufeff' :: cs => cs
  | cs => cs

/-- The fields of a document, if it has no fault. A document that stands for a moment has none. -/
def parse (s : String) : Option (List (String × Setting)) := do
  let cs := skipMark s.toList
  match ← Entry.ofTable (← linesUpTo cs.length [] [] cs) with
  | .table fields => some fields
  | _ => none

end FragmentParser.Settings.Toml
