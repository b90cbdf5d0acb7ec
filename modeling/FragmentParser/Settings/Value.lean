import FragmentParser.NameTable
import FragmentParser.Number.Double

/-!
# Setting values

A setting is a value of a configuration file or an override, not yet read as what it is for. Tables
are **merged key by key**: what is set later replaces what was set before under the same key, and
all else stays. Keys differ only up to the case of their letters, and are kept in small letters.
-/

namespace FragmentParser

/-- A value that a setting may have. -/
inductive Setting where
  /-- No value. -/
  | nothing
  /-- A truth value. -/
  | bool (value : Bool)
  /-- A whole number. -/
  | int (value : Int)
  /-- A floating-point number. -/
  | double (value : Double)
  /-- A text. -/
  | text (value : String)
  /-- A list of values. -/
  | list (items : List Setting)
  /-- Values under keys. -/
  | table (fields : List (String × Setting))

namespace Setting

instance : Inhabited Setting := ⟨.nothing⟩

/-- A key in small letters. Two capital letters besides those of ASCII have a small letter of ASCII
in their small form, of which the Kelvin sign alone can be part of a word without marks. -/
def foldKey (key : String) : String :=
  String.ofList (key.toList.map fun c ↦ if c = '\u212a' then 'k' else c.toLower)

/-- The fields of a table; other values have none. -/
def fields : Setting → List (String × Setting)
  | .table fields => fields
  | _ => []

/-- The items of a list; other values have none. -/
def items : Setting → List Setting
  | .list items => items
  | _ => []

/-- The value under a key. -/
def get? (s : Setting) (key : String) : Option Setting := s.fields.lookup key

/-- Fields with a value under a key, in the place of the one that was there. -/
def putField (key : String) (value : Setting) : List (String × Setting) → List (String × Setting)
  | [] => [(key, value)]
  | (k, v) :: rest => if k = key then (k, value) :: rest else (k, v) :: putField key value rest

/-- Under the key there is the given value, and under the others what was there. -/
theorem lookup_putField (key : String) (value : Setting) (fields : List (String × Setting))
    (k : String) :
    (putField key value fields).lookup k = if k = key then some value else fields.lookup k := by
  induction fields with
  | nil => simp [putField, lookup_cons_eq]
  | cons e rest ih =>
    obtain ⟨n, v⟩ := e
    simp only [putField]
    split
    next h =>
      subst h
      simp only [lookup_cons_eq]
      grind
    next hne =>
      simp only [lookup_cons_eq, ih]
      grind

mutual

/-- Set a key of a value, which becomes a table if it is none. A table is merged with the one under
the key, and any other value replaces it. -/
def merge (key : String) (value : Setting) (into : Setting) : Setting :=
  let key := foldKey key
  match value with
  | .table incoming =>
    let target := (into.get? key).getD (.table [])
    .table (putField key (mergeFields incoming target) into.fields)
  | value => .table (putField key value into.fields)

/-- Set keys of a value one after another. -/
def mergeFields : List (String × Setting) → Setting → Setting
  | [], into => into
  | (key, value) :: rest, into => mergeFields rest (merge key value into)

end

end Setting

end FragmentParser
