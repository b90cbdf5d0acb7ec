import FragmentParser.Blueprint
import FragmentParser.Catalog
import FragmentParser.Chunking.Basic
import FragmentParser.Chunking.Normal
import FragmentParser.Command.Arguments
import FragmentParser.Command.Directory
import FragmentParser.Command.Run
import FragmentParser.Diagnostic
import FragmentParser.Document
import FragmentParser.Format.Catalog
import FragmentParser.Format.Tag
import FragmentParser.Format.Treeviz
import FragmentParser.Format.Yaml
import FragmentParser.Format.YamlScalar
import FragmentParser.Grammar.Basic
import FragmentParser.Grammar.Draft
import FragmentParser.Json.Basic
import FragmentParser.Json.Reader
import FragmentParser.Lookahead
import FragmentParser.Main
import FragmentParser.Memo
import FragmentParser.NameTable
import FragmentParser.Number.Decimal
import FragmentParser.Number.Digits
import FragmentParser.Number.Double
import FragmentParser.Number.Estimate
import FragmentParser.Outline.Numbering
import FragmentParser.Outline.Recipes
import FragmentParser.Outline.Table
import FragmentParser.ParseError
import FragmentParser.Parser
import FragmentParser.Proofs.Advance
import FragmentParser.Proofs.Bound
import FragmentParser.Proofs.Causality
import FragmentParser.Proofs.Chunking.LineEnds
import FragmentParser.Proofs.Chunking.Normal
import FragmentParser.Proofs.Chunking.Pages
import FragmentParser.Proofs.Chunking.Paragraphs
import FragmentParser.Proofs.Command.Runs
import FragmentParser.Proofs.Configuration
import FragmentParser.Proofs.Correspondence
import FragmentParser.Proofs.Edge
import FragmentParser.Proofs.Errors
import FragmentParser.Proofs.Format.Documents
import FragmentParser.Proofs.Format.Drawing
import FragmentParser.Proofs.Format.Tags
import FragmentParser.Proofs.Frame
import FragmentParser.Proofs.Grammar.Checks
import FragmentParser.Proofs.Grammar.Views
import FragmentParser.Proofs.Invariant
import FragmentParser.Proofs.Iteration
import FragmentParser.Proofs.Json.Grammar
import FragmentParser.Proofs.Json.Printing
import FragmentParser.Proofs.Json.Reading
import FragmentParser.Proofs.Json.Trees
import FragmentParser.Proofs.Machine
import FragmentParser.Proofs.Memo.Design
import FragmentParser.Proofs.Memo.Grouping
import FragmentParser.Proofs.Moments
import FragmentParser.Proofs.Outline.Content
import FragmentParser.Proofs.Outline.Design
import FragmentParser.Proofs.Outline.Frames
import FragmentParser.Proofs.Outline.Growth
import FragmentParser.Proofs.Outline.HeadingLines
import FragmentParser.Proofs.Outline.Hierarchy
import FragmentParser.Proofs.Outline.ItemFrames
import FragmentParser.Proofs.Outline.Lists
import FragmentParser.Proofs.Outline.Moves
import FragmentParser.Proofs.Outline.Nested
import FragmentParser.Proofs.Outline.Nesting
import FragmentParser.Proofs.Outline.Numbering
import FragmentParser.Proofs.Outline.OpenLists
import FragmentParser.Proofs.Outline.Outcome
import FragmentParser.Proofs.Outline.Reading
import FragmentParser.Proofs.Outline.Redirection
import FragmentParser.Proofs.Outline.StackForms
import FragmentParser.Proofs.Outline.Stacks
import FragmentParser.Proofs.Outline.StateChain
import FragmentParser.Proofs.Outline.Steps
import FragmentParser.Proofs.Position
import FragmentParser.Proofs.Precedence
import FragmentParser.Proofs.Progress
import FragmentParser.Proofs.Pushdown
import FragmentParser.Proofs.Recurrence
import FragmentParser.Proofs.Requests
import FragmentParser.Proofs.RootFrame
import FragmentParser.Proofs.Settings.Keys
import FragmentParser.Proofs.Settings.Layering
import FragmentParser.Proofs.Settings.Singles
import FragmentParser.Proofs.Shape
import FragmentParser.Proofs.Simulation
import FragmentParser.Proofs.StackDiscipline
import FragmentParser.Proofs.Stall
import FragmentParser.Proofs.Termination
import FragmentParser.Proofs.Text.Pieces
import FragmentParser.Proofs.Trace.Decisions
import FragmentParser.Proofs.Trace.Mismatches
import FragmentParser.Proofs.Trace.Recorded
import FragmentParser.Proofs.Verdict
import FragmentParser.Recipe
import FragmentParser.Rule
import FragmentParser.Session
import FragmentParser.Settings.Basic
import FragmentParser.Settings.Layer
import FragmentParser.Settings.Path
import FragmentParser.Settings.Toml.Document
import FragmentParser.Settings.Toml.Entry
import FragmentParser.Settings.Toml.Moment
import FragmentParser.Settings.Toml.Number
import FragmentParser.Settings.Toml.Text
import FragmentParser.Settings.Toml.Value
import FragmentParser.Settings.Value
import FragmentParser.StateStack
import FragmentParser.Text.Blank
import FragmentParser.Text.Digit
import FragmentParser.Text.Graphic
import FragmentParser.Text.Lines
import FragmentParser.Text.Quoted
import FragmentParser.Text.Utf8
import FragmentParser.Trace
import FragmentParser.Tree.Basic
import FragmentParser.Tree.Expectation
import FragmentParser.Tree.Json
