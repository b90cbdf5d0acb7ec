import FragmentParser.Format.Tag
import FragmentParser.Format.Treeviz
import FragmentParser.Format.Yaml
import FragmentParser.Tree.Json

/-!
# The catalog of formats

The formats in which a program can write a tree, by name. Writing may fail, and a format may not be
registered.
-/

namespace FragmentParser

/-- Why a tree was not written. -/
inductive FormatError where
  /-- No format of that name is registered. -/
  | formatNotFound (name : String)
  /-- The format failed. -/
  | serializationError (cause : String)
deriving DecidableEq

/-- The message for a format error. -/
def FormatError.message : FormatError → String
  | .formatNotFound name => "Format '" ++ name ++ "' not found"
  | .serializationError cause => "Serialization error: " ++ cause

/-- A way of writing trees. -/
structure Format where
  /-- The name under which the format is known. -/
  name : String
  /-- A line about it. -/
  description : String
  /-- The text of a tree. -/
  write : Node → Except FormatError String

namespace Format

/-- Tags with indentation. -/
def tag : Format where
  name := "tag"
  description := "XML-like tag format reflecting the tree structure"
  write tree := .ok (Tag.render tree)

/-- A drawing with labels of the given width. -/
def treeviz (width : Nat) : Format where
  name := "treeviz"
  description := "Visual tree representation with indentation and Unicode icons"
  write tree := .ok (Treeviz.render width tree)

/-- JSON over several lines. -/
def json : Format where
  name := "json"
  description := "Pretty printed JSON"
  write tree := .ok tree.toJson.render

/-- YAML. -/
def yaml : Format where
  name := "yaml"
  description := "YAML"
  write tree := .ok (Yaml.render tree)

end Format

/-- The formats that a program knows. -/
abbrev FormatCatalog : Type := NameTable Format

namespace FormatCatalog

/-- Enter a format under its name. -/
def register (r : FormatCatalog) (f : Format) : FormatCatalog := r.insert f.name f

/-- The formats that come with the program. -/
def bundled : FormatCatalog :=
  [Format.tag, Format.treeviz Format.Treeviz.defaultWidth, Format.json, Format.yaml].foldl register
    .empty

/-- Write a tree in the format of a name. -/
def write (r : FormatCatalog) (tree : Node) (format : String) : Except FormatError String :=
  match r.get? format with
  | some f => f.write tree
  | none => .error (.formatNotFound format)

end FormatCatalog

end FragmentParser
