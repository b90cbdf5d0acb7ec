import FragmentParser.Command.Arguments
import FragmentParser.Document
import FragmentParser.Format.Catalog
import FragmentParser.Settings.Layer
import FragmentParser.Text.Utf8

/-!
# Runs of the command

A run reads at most two files, the document and the settings, and ends with an exit code and two
texts, for the standard output and the standard error. How a file is read is a parameter.

The output of a parse is empty unless everything succeeds: the settings, the look-up of the format,
the reading of the document, the look-up of the grammar, and the parse, in that order.
-/

namespace FragmentParser.Command

/-- How a run ends. -/
structure Outcome where
  /-- The exit code. -/
  code : Nat
  /-- The standard output. -/
  stdout : String
  /-- The standard error. -/
  stderr : String
deriving DecidableEq

/-- A way of reading the bytes of a file. -/
abbrev Reading : Type := String → Except ReadError ByteArray

/-! ### Texts -/

/-- The name of the command. -/
def programName : String := "fsmparse"

/-- The line that tells the version. -/
def versionText : String := programName ++ " 0.1.0\n"

/-- The help text. -/
def helpText : String :=
  "Parse plain text documents with a finite-state-machine grammar\n\n" ++
  "Usage: " ++ programName ++ " [OPTIONS] [path]\n\n" ++
  "Arguments:\n" ++
  "  [path]  Path to the text file\n\n" ++
  "Options:\n" ++
  "  -g, --grammar <grammar>    Grammar name (e.g., 'outline', 'memo')\n" ++
  "      --chunking <chunking>  How the text is split into fragments " ++
  "[possible values: paragraph, line, page]\n" ++
  "  -f, --format <format>      Output format (e.g., 'treeviz', 'tag', 'json', 'yaml')\n" ++
  "      --trace                Report every parse step on stderr\n" ++
  "  -c, --config <config>      Configuration file layered over the defaults\n" ++
  "      --list-grammars        List available grammars\n" ++
  "      --list-formats         List available output formats\n" ++
  "  -h, --help                 Print help\n" ++
  "  -V, --version              Print version\n"

/-- A list of names, each with a line about it. -/
def listing (title : String) (entries : List (String × String)) : String :=
  title ++ "\n\n" ++
    String.join (entries.map fun (name, about) ↦ "  " ++ name ++ "\n    " ++ about ++ "\n\n")

/-- The list of the grammars. -/
def grammarListing (catalog : Catalog) : String :=
  listing "Available grammars:" (catalog.entries.map fun (name, e) ↦ (name, e.description))

/-- The list of the formats. -/
def formatListing (formats : FormatCatalog) : String :=
  listing "Available formats:" (formats.entries.map fun (name, f) ↦ (name, f.description))

/-- The message for settings that cannot be built. -/
def settingsMessage : SettingsError → String
  | .pathSyntax => "a setting has a path that cannot be read"
  | .fileSyntax => "the file is not a TOML document"
  | .fileMissing => "the file was not found"
  | .wrongType => "a setting has a value of the wrong type"
  | .wrongShape => "a setting is missing or has a value that it cannot have"

/-- A text with a line end behind it, unless it ends in one. -/
def endLine (s : String) : String := if s.toList.getLast? = some '\n' then s else s ++ "\n"

/-- Lines, each with its end. -/
def lineText (lines : List String) : String := String.join (lines.map (· ++ "\n"))

/-! ### Settings -/

/-- The path with the ending of files of settings, if the path has a last name to put it behind. -/
def withEnding (path : String) : Option String :=
  let parts := (path.toList.splitOn '/').reverse.dropWhile fun p ↦ p = [] ∨ p = ['.']
  match parts with
  | [] => none
  | ['.', '.'] :: _ => none
  | parts => some (String.ofList (['/'].intercalate parts.reverse) ++ ".toml")

/-- The content of the file of settings: the file under the path itself or, if there is none, under
the path with the ending. -/
def settingsFile (read : Reading) (path : String) : Option String :=
  let found := match read path with
    | .ok bytes => some bytes
    | .error _ => (withEnding path).bind fun path ↦ (read path).toOption
  found.map Text.ofBytes

/-- The settings that a command line sets singly. -/
def singleSettings (given : Given) : List Layer :=
  let text (p : Parameter) (path : String) : List Layer :=
    ((given.value? p).map fun v ↦ Layer.set path (.text v)).toList
  text .grammar "parse.grammar" ++ text .chunking "parse.chunking" ++
    text .format "output.format" ++
    if given.has .trace then [.set "trace.enabled" (.bool true)] else []

/-- The layers of settings of a run. -/
def layers (read : Reading) (given : Given) : List Layer :=
  ((given.value? .config).map fun path ↦ Layer.file (settingsFile read path)).toList ++
    singleSettings given

/-! ### Runs -/

/-- The formats of a run: the bundled ones, with drawings of the width that is set. -/
def formats (settings : Settings) : FormatCatalog :=
  FormatCatalog.bundled.register (.treeviz settings.labelWidth)

/-- The document under a path. -/
def readDocument (read : Reading) (path : String) : Except ReadError String := do
  decodeSource (← read path)

/-- The report of the parse of the document under a path. -/
def report (read : Reading) (settings : Settings) (path : String) : DocumentReport :=
  match readDocument read path with
  | .ok source => parseDocument .bundled ⟨settings.grammar, settings.chunking⟩ source
  | .error e => ⟨some (.error (.io e)), []⟩

/-- Parse the document under a path with given settings. -/
def parse (read : Reading) (settings : Settings) (path : String) : Outcome :=
  let formats := formats settings
  if formats.has settings.format then
    let report := report read settings path
    let trace := if settings.trace then lineText report.trace else ""
    match report.result with
    | none => ⟨1, "", trace⟩
    | some (.error e) => ⟨1, "", trace ++ "Error: " ++ e.message ++ "\n"⟩
    | some (.ok tree) =>
      match formats.write tree settings.format with
      | .ok s => ⟨0, endLine s, trace⟩
      | .error e => ⟨1, "", trace ++ "Error formatting tree: " ++ e.message ++ "\n"⟩
  else
    ⟨1, "", "Unknown format '" ++ settings.format ++ "'\nAvailable formats: " ++
      ", ".intercalate formats.names ++ "\n"⟩

/-- Run a command line that is not refused. -/
def runGiven (read : Reading) (given : Given) : Outcome :=
  if given.has .listGrammars then ⟨0, grammarListing .bundled, ""⟩
  else if given.has .listFormats then ⟨0, formatListing .bundled, ""⟩
  else
    match Settings.build (layers read given) with
    | .error e => ⟨1, "", "Configuration error: " ++ settingsMessage e ++ "\n"⟩
    | .ok settings => parse read settings (given.path.getD "")

/-- Run the command. -/
def run (read : Reading) (args : List String) : Outcome :=
  match Request.ofArguments args with
  | .error e => ⟨2, "", "error: " ++ e.message ++ "\n"⟩
  | .ok .help => ⟨0, helpText, ""⟩
  | .ok .version => ⟨0, versionText, ""⟩
  | .ok (.run given) => runGiven read given

/-- The paths that a run may read. -/
def sources (args : List String) : List String :=
  match Request.ofArguments args with
  | .ok (.run given) =>
    given.path.toList ++
      (match given.value? .config with
        | some path => path :: (withEnding path).toList
        | none => [])
  | _ => []

end FragmentParser.Command
