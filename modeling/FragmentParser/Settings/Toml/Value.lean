import FragmentParser.Settings.Toml.Entry
import FragmentParser.Settings.Toml.Number

/-!
# Keys and values of TOML

A key has one part or several with periods between them. A value is a text, a number, a truth value,
a moment, an array or an inline table. Arrays and inline tables nest up to a limit, which is the
measure of the recursion, and a key has fewer parts than that limit.
-/

namespace FragmentParser.Settings.Toml

/-- How deep arrays and inline tables may nest, and how many parts a key may have. -/
def maxNesting : Nat := 79

/-! ### Keys -/

/-- Whether the character can be part of a key without quotes. -/
def isKeyChar (c : Char) : Bool := c.isAlphanum || c = '_' || c = '-'

/-- One part of a key. -/
def keyPart (cs : List Char) : Option (String × List Char) :=
  let found := match cs with
    | '"' :: rest => lineText '"' true (rest.length + 1) rest
    | '\'' :: rest => lineText '\'' false (rest.length + 1) rest
    | _ =>
      let key := cs.takeWhile isKeyChar
      if key.isEmpty then none else some (key, cs.dropWhile isKeyChar)
  found.map fun (key, rest) ↦ (String.ofList key, rest)

/-- A key with at most `bound` parts: the parts before the last, the last one, and the text behind
the blanks that follow. -/
def keyUpTo : (bound : Nat) → List Char → Option ((List String × String) × List Char)
  | 0, _ => none
  | bound + 1, cs => do
    let (key, rest) ← keyPart (skipSpace cs)
    match skipSpace rest with
    | '.' :: rest => do
      let ((path, last), rest) ← keyUpTo bound rest
      some ((key :: path, last), rest)
    | rest => some (([], key), rest)

/-- A key: the parts before the last, and the last one. -/
def key (cs : List Char) : Option ((List String × String) × List Char) := keyUpTo maxNesting cs

/-! ### Values -/

/-- The items of an array behind its bracket or a comma, given how a value is read. -/
def items (value : List Char → Option (Entry × List Char)) :
    (bound : Nat) → List Char → Option (List Entry × List Char)
  | 0, _ => none
  | bound + 1, cs =>
    match skipAll cs with
    | ']' :: rest => some ([], rest)
    | cs => do
      let (item, rest) ← value cs
      match skipAll rest with
      | ']' :: rest => some ([item], rest)
      | ',' :: rest => do
        let (others, rest) ← items value bound rest
        some (item :: others, rest)
      | _ => none

/-- Add the fields of an inline table behind its brace or a comma to those before, given how a value
is read. -/
def fields (value : List Char → Option (Entry × List Char)) :
    (bound : Nat) → List (String × Entry) → List Char → Option (List (String × Entry) × List Char)
  | 0, _, _ => none
  | bound + 1, entries, cs => do
    let ((path, last), rest) ← key cs
    let (v, rest) ← value (skipSpace (← mark '=' rest))
    let entries ← Entry.assign path last v entries
    match skipSpace rest with
    | '\x7d' :: rest => some (entries, rest)
    | ',' :: rest => fields value bound entries rest
    | _ => none

/-- A value in which arrays and inline tables nest at most `nesting` deep. -/
def valueUpTo (nesting : Nat) (cs : List Char) : Option (Entry × List Char) :=
  match cs with
  | [] => none
  | c :: rest =>
    if c = '"' ∨ c = '\'' then (quoted cs).map fun (text, rest) ↦ (.value (.text text), rest)
    else if c = '[' then
      match nesting with
      | 0 => none
      | nesting + 1 =>
        (items (valueUpTo nesting) (rest.length + 1) rest).map fun (is, rest) ↦ (.array is, rest)
    else if c = '\x7b' then
      match nesting with
      | 0 => none
      | nesting + 1 =>
        match skipSpace rest with
        | '\x7d' :: rest => some (.inlineTable [], rest)
        | rest =>
          (fields (valueUpTo nesting) (rest.length + 1) [] rest).map fun (entries, rest) ↦
            (.inlineTable entries, rest)
    else if ['t', 'r', 'u', 'e'].isPrefixOf cs then some (.value (.bool true), cs.drop 4)
    else if ['f', 'a', 'l', 's', 'e'].isPrefixOf cs then some (.value (.bool false), cs.drop 5)
    else
      match moment cs with
      | some (text, rest) => some (.moment text, rest)
      | none => (number cs).map fun (n, rest) ↦ (.value n, rest)
termination_by structural nesting

/-- A value. -/
def value (cs : List Char) : Option (Entry × List Char) := valueUpTo maxNesting cs

end FragmentParser.Settings.Toml
