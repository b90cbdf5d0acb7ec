import FragmentParser.Settings.Basic
import FragmentParser.Settings.Path
import FragmentParser.Settings.Toml.Document

/-!
# Layers of settings

Settings come in **layers**: the defaults, files, and single values that are set. A file is laid
over those before it, key by key. What is set singly lies above all files, wherever it stands among
them, and of two values for one path the later counts.

A text that is no path is found before any file is looked at.
-/

namespace FragmentParser

/-- One layer of settings. -/
inductive Layer where
  /-- A file that has to be there. -/
  | file (content : Option String)
  /-- A file that counts only if it is there. -/
  | optionalFile (content : Option String)
  /-- A single value at the path that a text spells. -/
  | set (path : String) (value : Setting)

namespace Settings

/-- The settings that hold where no layer says otherwise. -/
def defaults : Setting :=
  .table [
    ("parse", .table [("grammar", .text "outline"), ("chunking", .text "paragraph")]),
    ("trace", .table [("enabled", .bool false)]),
    ("output", .table [("format", .text "treeviz"), ("label_width", .int 30)])]

/-- The text of a file, to which a byte order mark at the beginning of its content does not belong.
A document may have one of its own. -/
def fileText (content : String) : String := String.ofList (Toml.skipMark content.toList)

/-- Lay the content of a file over values. -/
def putFile (content : String) (into : Setting) : Except SettingsError Setting :=
  match Toml.parse (fileText content) with
  | some fields => .ok (fields.foldl (fun into (key, value) ↦ putTopLevel key value into) into)
  | none => .error .fileSyntax

/-- Lay the file of a layer over values; a single value is not its concern. -/
def putLayerFile (into : Setting) : Layer → Except SettingsError Setting
  | .file (some content) => putFile content into
  | .file none => .error .fileMissing
  | .optionalFile (some content) => putFile content into
  | .optionalFile none => .ok into
  | .set .. => .ok into

/-- The paths and values that layers set singly. -/
def overrides : List Layer → Except SettingsError (List (Path × Setting))
  | [] => .ok []
  | .set path value :: rest =>
    match parsePath path with
    | some path => (overrides rest).map ((path, value) :: ·)
    | none => .error .pathSyntax
  | _ :: rest => overrides rest

/-- The values that layers come to, in one table. -/
def collect (layers : List Layer) : Except SettingsError Setting := do
  let singles ← overrides layers
  let fromFiles ← layers.foldlM putLayerFile defaults
  .ok (singles.foldl (fun into (path, value) ↦ put value path into) fromFiles)

/-- The settings that layers come to. -/
def build (layers : List Layer) : Except SettingsError Settings := do ofSetting (← collect layers)

end Settings

end FragmentParser
