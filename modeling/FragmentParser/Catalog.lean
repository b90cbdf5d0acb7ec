import FragmentParser.Memo
import FragmentParser.NameTable
import FragmentParser.Outline.Recipes

/-!
# The catalog of grammars

Grammars differ in their states and symbols, yet a program chooses among them by **name**. An entry
of the catalog hides the types: it has a description and turns chunks into a report.
-/

namespace FragmentParser

/-- What a parse of chunks came to. -/
structure Report where
  /-- The tree or the error; neither if the parse exceeded its bound. -/
  result : Option (Except ParseError Node)
  /-- The lines of the trace. -/
  trace : List String

/-- The report of a parse, given its bound. -/
def Parser.report {C F S Y : Type} [DecidableEq S] [DecidableEq Y] [Constructor C] [Diagnostic F]
    [Diagnostic S] [Diagnostic Y] (p : Parser C F S Y Node) (bound : Nat) (fragments : List F) :
    Report :=
  match p.run bound (.ofList fragments) with
  | none => ⟨none, []⟩
  | some (result, d) => ⟨some result, d.steps.map Step.line⟩

/-- A bound for chunks that no parse exceeds whose constructors all take a chunk, by themselves or
through one that they run first: such a parse opens two frames for a chunk at most. -/
def chunkBound (chunks : List String) : Nat := 2 * chunks.length + 2

/-- A grammar with its types hidden. -/
structure CatalogEntry where
  /-- The name under which the grammar is known. -/
  name : String
  /-- A line about it. -/
  description : String
  /-- The parse of a list of chunks. -/
  parse : List String → Report

namespace CatalogEntry

/-- The outline grammar. -/
def outline : CatalogEntry where
  name := "outline"
  description := "numbered sections, nested ordered lists and long header lines"
  parse chunks := Outline.parser.report (chunkBound chunks) chunks

/-- The memo grammar. -/
def memo : CatalogEntry where
  name := "memo"
  description := "underlined headings, indented preformatted blocks and paragraphs"
  parse chunks := Memo.parser.report (chunkBound chunks) chunks

end CatalogEntry

/-- The grammars that a program knows. -/
abbrev Catalog : Type := NameTable CatalogEntry

namespace Catalog

/-- Enter a grammar under its name. -/
def register (c : Catalog) (e : CatalogEntry) : Catalog := c.insert e.name e

/-- The catalog of the bundled grammars. -/
def bundled : Catalog := register (register .empty .memo) .outline

end Catalog

end FragmentParser
