import FragmentParser.Catalog
import FragmentParser.Chunking.Basic

/-!
# Documents

A document is a source text. It is parsed with a grammar that is chosen by name from a catalog,
after having been cut into chunks. A source that is read from a disk may not be there, or may not
be text, and those are errors of the document as well.
-/

namespace FragmentParser

/-- Why a source cannot be read. -/
inductive ReadError where
  /-- There is nothing under the path. -/
  | notFound
  /-- The path leads through something that is no directory. -/
  | notDirectory
  /-- There is a directory under the path. -/
  | isDirectory
  /-- The path or a name in it is too long. -/
  | nameTooLong
  /-- The content is not UTF-8. -/
  | notText
deriving DecidableEq

/-- The message for a source that cannot be read. -/
def ReadError.message : ReadError → String
  | .notFound => "No such file or directory (os error 2)"
  | .notDirectory => "Not a directory (os error 20)"
  | .isDirectory => "Is a directory (os error 21)"
  | .nameTooLong => "File name too long (os error 36)"
  | .notText => "stream did not contain valid UTF-8"

/-- Why there is no tree for a document. -/
inductive DocumentError where
  /-- The source cannot be read. -/
  | io (cause : ReadError)
  /-- The catalog has no grammar of that name. -/
  | unknownGrammar (name : String) (available : List String)
  /-- The parse failed. -/
  | parse (cause : ParseError)
deriving DecidableEq

/-- The message for a document error. -/
def DocumentError.message : DocumentError → String
  | .io cause => "IO error: " ++ cause.message
  | .unknownGrammar name available =>
    "unknown grammar '" ++ name ++ "' (available: " ++ ", ".intercalate available ++ ")"
  | .parse cause => "parse error: " ++ cause.message

/-- How a document is parsed. -/
structure ParseOptions where
  /-- The name of the grammar. -/
  grammar : String
  /-- How the text is cut. -/
  chunking : Chunking

/-- What the parse of a document came to. -/
structure DocumentReport where
  /-- The tree or the error; neither if the parse exceeded its bound. -/
  result : Option (Except DocumentError Node)
  /-- The lines of the trace. -/
  trace : List String

/-- Parse a source text. -/
def parseDocument (catalog : Catalog) (options : ParseOptions) (source : String) :
    DocumentReport :=
  match catalog.get? options.grammar with
  | none => ⟨some (.error (.unknownGrammar options.grammar catalog.names)), []⟩
  | some entry =>
    let report := entry.parse (options.chunking.chunk source)
    ⟨report.result.map (·.mapError .parse), report.trace⟩

/-- The text of the bytes of a source. -/
def decodeSource (bytes : ByteArray) : Except ReadError String :=
  match String.fromUTF8? bytes with
  | some s => .ok s
  | none => .error .notText

end FragmentParser
