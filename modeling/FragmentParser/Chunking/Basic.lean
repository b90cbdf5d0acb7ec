import FragmentParser.Chunking.Normal
import FragmentParser.Text.Lines

/-!
# Chunking

A plain text becomes the fragments of a parse by being cut, after normalization: into
**paragraphs**, the maximal runs of lines that are not blank; into single **lines**; or into
**pages**, which form feeds separate.
-/

namespace FragmentParser

open Text

/-- A way of cutting a text into chunks. -/
inductive Chunking where
  /-- Runs of lines that are not blank. -/
  | paragraph
  /-- Single lines. -/
  | line
  /-- Pages, between form feeds. -/
  | page
deriving DecidableEq

/-- A name that no way of cutting has. -/
structure UnknownChunking where
  /-- The name. -/
  name : String
deriving DecidableEq

/-- The message for an unknown way of cutting. -/
def UnknownChunking.message (e : UnknownChunking) : String :=
  "unknown chunking '" ++ e.name ++ "' (expected paragraph, line or page)"

namespace Chunking

instance : Inhabited Chunking := ⟨.paragraph⟩

/-- All ways of cutting. -/
def all : List Chunking := [.paragraph, .line, .page]

/-- The name of a way of cutting. -/
def name : Chunking → String
  | .paragraph => "paragraph"
  | .line => "line"
  | .page => "page"

/-- The way of cutting of a name. -/
def ofName (s : String) : Except UnknownChunking Chunking :=
  match all.find? fun c ↦ c.name = s with
  | some c => .ok c
  | none => .error ⟨s⟩

@[simp] theorem ofName_name (c : Chunking) : ofName c.name = .ok c := by
  cases c <;> rfl

/-- The paragraph of a run of lines, unless the run is empty. -/
def endParagraph (run : List (List Char)) : List (List Char) :=
  if run.isEmpty then [] else [joinLines run]

/-- The paragraphs of lines, behind the run of lines with which a paragraph has begun. A blank line
ends it, and so does the end of the lines. -/
def gatherParagraphs (run : List (List Char)) : List (List Char) → List (List Char)
  | [] => endParagraph run
  | l :: rest =>
    if allBlank l then endParagraph run ++ gatherParagraphs [] rest
    else gatherParagraphs (run ++ [l]) rest

/-- The paragraphs of a normal text: lines that are not blank and follow each other directly belong
to one paragraph. -/
def paragraphChars (cs : List Char) : List (List Char) := gatherParagraphs [] (lines cs)

/-- The pages of a normal text. A blank page at the end is none. -/
def pageChars (cs : List Char) : List (List Char) :=
  let pages := cs.splitOn '\x0c'
  if pages.getLast?.any allBlank then pages.dropLast else pages

/-- The chunks of a text. -/
def chunk (c : Chunking) (s : String) : List String :=
  let cs := normalChars s.toList
  let chunks := match c with
    | .paragraph => paragraphChars cs
    | .line => lines cs
    | .page => pageChars cs
  chunks.map String.ofList

example :
    Chunking.chunk .paragraph "\n\nFirst\nsecond\n\n \nNext\n" = ["First\nsecond", "Next"] := by
  decide +kernel

example : Chunking.chunk .page "one\n\x0ctwo\n\x0c" = ["one\n", "two\n"] := by decide +kernel

end Chunking

end FragmentParser
