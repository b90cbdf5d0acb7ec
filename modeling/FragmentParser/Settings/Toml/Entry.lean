import FragmentParser.Settings.Toml.Moment
import FragmentParser.Settings.Value

/-!
# Entries of a document

What a document holds under its keys. A file gives a table bit by bit: in a header, by being on the
way to another one, or through keys with periods. Whether a later line may still add to it depends
on **how it came to be**, which is its `Origin`. The entries of a table are kept **in the order in
which they came to be**.

`Entry.enter` is the one way into a table: a value that was given as a whole cannot be entered, nor,
through keys with periods, a table that has a header.

At the end the entries become plain values (`Entry.toSetting`). A table whose first key is the
`momentKey` does not become a table: it **stands for the moment** that is spelled under that key,
and what else it holds does not count.
-/

namespace FragmentParser.Settings.Toml

/-- How a table came to be. -/
inductive Origin where
  /-- In a header, or as the whole file. -/
  | header
  /-- On the way to the table of a header. -/
  | onTheWay
  /-- Through keys with periods. -/
  | dotted
deriving DecidableEq

/-- What a table holds under a key. -/
inductive Entry where
  /-- A text, a number or a truth value. -/
  | value (value : Setting)
  /-- A moment, in its standard form. -/
  | moment (text : String)
  /-- An array. -/
  | array (items : List Entry)
  /-- A table that was given as a whole. -/
  | inlineTable (entries : List (String × Entry))
  /-- A table. -/
  | table (origin : Origin) (entries : List (String × Entry))
  /-- A list of tables, each with a header, the last one first. -/
  | tableList (tables : List (List (String × Entry)))

namespace Entry

/-! ### Values of entries -/

/-- The key that makes a table stand for a moment, if it is the first one. -/
def momentKey : String := "$__toml_private_datetime"

/-- The moment that an entry spells, which has to be a text. -/
def spelled? : Entry → Option Setting
  | .value (.text s) => (spelledMoment? s).map .text
  | _ => none

mutual

/-- The value that an entry comes to. There is none if something in it should spell a moment and
does not. -/
def toSetting : Entry → Option Setting
  | .value v => some v
  | .moment text => some (.text text)
  | .array items => (toItems items).map .list
  | .inlineTable entries => ofTable entries
  | .table _ entries => ofTable entries
  | .tableList tables => (toTables tables).map fun tables ↦ .list tables.reverse

/-- The value that a table with the given entries comes to. -/
def ofTable : List (String × Entry) → Option Setting
  | [] => some (.table [])
  | (key, e) :: rest =>
    if key = momentKey then e.spelled?
    else do
      let v ← e.toSetting
      some (.table ((key, v) :: (← toFields rest)))

/-- The fields that entries come to. -/
def toFields : List (String × Entry) → Option (List (String × Setting))
  | [] => some []
  | (key, e) :: rest => do
    let v ← e.toSetting
    some ((key, v) :: (← toFields rest))

/-- The values that the items of an array come to. -/
def toItems : List Entry → Option (List Setting)
  | [] => some []
  | e :: rest => do
    let v ← e.toSetting
    some (v :: (← toItems rest))

/-- The values that tables come to. -/
def toTables : List (List (String × Entry)) → Option (List Setting)
  | [] => some []
  | entries :: rest => do
    let v ← ofTable entries
    some (v :: (← toTables rest))

end

/-! ### Entries that come to be -/

/-- Entries with one under a key, in the place of the one that was there. -/
def put (key : String) (e : Entry) : List (String × Entry) → List (String × Entry)
  | [] => [(key, e)]
  | (k, old) :: rest => if k = key then (k, e) :: rest else (k, old) :: put key e rest

/-- Entries with one under a key, which becomes the last one. -/
def putLast (key : String) (e : Entry) (entries : List (String × Entry)) : List (String × Entry) :=
  entries.filter (·.1 ≠ key) ++ [(key, e)]

/-- Change the table at the end of a path, given its origin and its entries. A table that is not
there comes to be with the origin `missing`. Of a list of tables the last one is meant. -/
def enter (missing : Origin)
    (change : Origin → List (String × Entry) → Option (List (String × Entry))) :
    List String → Origin → List (String × Entry) → Option (List (String × Entry))
  | [], origin, entries => change origin entries
  | key :: path, _, entries =>
    match entries.lookup key with
    | none => do
      let inner ← enter missing change path missing []
      some (put key (.table missing inner) entries)
    | some (.table origin inner) =>
      if missing = .dotted ∧ origin = .header then none
      else do
        let inner ← enter missing change path origin inner
        some (put key (.table origin inner) entries)
    | some (.tableList (last :: others)) => do
      let last ← enter missing change path .header last
      some (put key (.tableList (last :: others)) entries)
    | some _ => none

/-- Set a key, which may have periods, in the table of a header. Nothing may be there yet, and what
keys with periods add to must have come to be through such keys. -/
def assign (path : List String) (key : String) (e : Entry) (entries : List (String × Entry)) :
    Option (List (String × Entry)) :=
  enter .dotted
    (fun origin entries ↦
      if (origin = .dotted : Bool) = path.isEmpty then none
      else
        match entries.lookup key with
        | none => some (put key e entries)
        | some _ => none)
    path .header entries

/-- The table of a header comes to be. It may have been on the way to another one before, and then
comes to be anew, with what it held. -/
def openTable (path : List String) (key : String) (entries : List (String × Entry)) :
    Option (List (String × Entry)) :=
  enter .onTheWay
    (fun _ entries ↦
      match entries.lookup key with
      | none => some (put key (.table .header []) entries)
      | some (.table .onTheWay inner) => some (putLast key (.table .header inner) entries)
      | some _ => none)
    path .header entries

/-- The next table of the list that a header names comes to be. -/
def openItem (path : List String) (key : String) (entries : List (String × Entry)) :
    Option (List (String × Entry)) :=
  enter .onTheWay
    (fun _ entries ↦
      match entries.lookup key with
      | none => some (put key (.tableList [[]]) entries)
      | some (.tableList tables) => some (put key (.tableList ([] :: tables)) entries)
      | some _ => none)
    path .header entries

/-- Set a key in the table at the end of the path of a header. -/
def assignWithin (header : List String) (path : List String) (key : String) (e : Entry)
    (entries : List (String × Entry)) : Option (List (String × Entry)) :=
  enter .onTheWay (fun _ entries ↦ assign path key e entries) header .header entries

end Entry

end FragmentParser.Settings.Toml
