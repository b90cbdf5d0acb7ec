import FragmentParser.Settings.Value

/-!
# Setting paths

A path names a setting by the keys that lead to it, as in `output.label_width`, or by a place in a
list, as in `hosts[0]`. A value set at a path makes tables and lists of whatever is in its way.
-/

namespace FragmentParser.Settings

/-- One step of a path. -/
inductive PathStep where
  /-- To the value under a key. -/
  | key (key : String)
  /-- To the item at an index; from the end if it is negative. -/
  | index (index : Int)
deriving DecidableEq

/-- A path, which begins with a key. -/
abbrev Path : Type := List PathStep

/-- Whether the character can be part of a key in a path. -/
def isKeyChar (c : Char) : Bool := c.isAlphanum || c = '_' || c = '-' || c = ' '

/-- A key at the beginning of a text, and what follows. -/
def pathKey (cs : List Char) : Option (PathStep × List Char) :=
  let key := cs.takeWhile isKeyChar
  if key.isEmpty then none
  else some (.key (Setting.foldKey (String.ofList key)), cs.dropWhile isKeyChar)

/-- Whether the character may stand around an index. -/
def isIndexSpace (c : Char) : Bool := c = ' ' || c = '\t'

/-- An index at the beginning of a text behind its bracket, and what follows its other bracket. -/
def pathIndex (cs : List Char) : Option (PathStep × List Char) :=
  let (negative, cs) := match cs.dropWhile isIndexSpace with
    | '-' :: rest => (true, rest)
    | rest => (false, rest)
  let digits := cs.takeWhile Char.isDigit
  if digits.isEmpty then none
  else
    match (cs.dropWhile Char.isDigit).dropWhile isIndexSpace with
    | ']' :: rest =>
      let n : Int := natOfDigits digits
      if n ≤ 0x7FFFFFFFFFFFFFFF then some (.index (if negative then -n else n), rest) else none
    | _ => none

/-- The steps behind the first, in at most `bound` steps. -/
def pathSteps : (bound : Nat) → List Char → Option Path
  | _, [] => some []
  | 0, _ :: _ => none
  | bound + 1, c :: cs => do
    let (step, rest) ← if c = '.' then pathKey cs else if c = '[' then pathIndex cs else none
    some (step :: (← pathSteps bound rest))

/-- The path that a text spells. -/
def parsePath (s : String) : Option Path := do
  let (first, rest) ← pathKey s.toList
  some (first :: (← pathSteps rest.length rest))

/-- The place of an index in a list of `n` items. -/
def place (index : Int) (n : Nat) : Nat := (if 0 ≤ index then index else n + index).toNat

/-- Put a value at a place of a list, which is filled up as far as that. -/
def putItem (i : Nat) (value : Setting) (items : List Setting) : List Setting :=
  (items ++ List.replicate (i + 1 - items.length) Setting.nothing).set i value

/-- Set a value at a path. -/
def put (value : Setting) : Path → Setting → Setting
  | [], _ => value
  | [.key key], into => Setting.merge key value into
  | .key key :: path, into =>
    .table (Setting.putField key (put value path ((into.get? key).getD .nothing)) into.fields)
  | .index index :: path, into =>
    let i := place index into.items.length
    .list (putItem i (put value path (into.items[i]?.getD .nothing)) into.items)

/-- Set the top-level key of a file. A key that spells a path is that path. -/
def putTopLevel (key : String) (value : Setting) (into : Setting) : Setting :=
  put value ((parsePath key).getD [.key key]) into

end FragmentParser.Settings
