import FragmentParser.Chunking.Basic
import FragmentParser.Settings.Value

/-!
# Settings

What can be set: the grammar, how a text is cut, whether there is a trace, the format of the output
and the width of its labels. The settings are read from one table of values, in which they stand in
three sections.

A value need not have the type of its setting, if it can be **converted**: a number has a text, a
text may spell a truth value or a number, and a floating-point number is rounded to a whole one.

In a section, the parts that are there are converted **before** any that is not there is missed. So
of a part that cannot be converted and one that is not there, the first is the fault.
-/

namespace FragmentParser

/-- The settings of a program. -/
structure Settings where
  /-- The name of the grammar. -/
  grammar : String
  /-- How a text is cut. -/
  chunking : Chunking
  /-- Whether the parse is traced. -/
  trace : Bool
  /-- The name of the output format. -/
  format : String
  /-- The width of a label in a drawing. -/
  labelWidth : Nat
deriving DecidableEq

/-- Why there are no settings. -/
inductive SettingsError where
  /-- A text is no path of a setting. -/
  | pathSyntax
  /-- A file is not a TOML document. -/
  | fileSyntax
  /-- A file is not there. -/
  | fileMissing
  /-- A value cannot be converted to the type of its setting. -/
  | wrongType
  /-- A section is neither a table nor a list, a setting is not there, or it is not one of the names
  that it can be. -/
  | wrongShape
deriving DecidableEq

namespace Setting

/-! ### Conversions -/

/-- A text in small letters. -/
def smallLetters (s : String) : String := String.ofList (s.toList.map Char.toLower)

/-- The truth value that a word stands for, among words for true and words for false. -/
def truthWord? (yes no : List String) (s : String) : Option Bool :=
  if smallLetters s ∈ yes then some true
  else if smallLetters s ∈ no then some false
  else none

/-- The text of a value. -/
def toText : Setting → Except SettingsError String
  | .text s => .ok s
  | .bool b => .ok (if b then "true" else "false")
  | .int n => .ok (if n < 0 then "-" ++ decimalText n.natAbs else decimalText n.natAbs)
  | .double d => .ok d.toText
  | _ => .error .wrongType

/-- The truth value of a value: a number is true unless it is zero. -/
def toBool : Setting → Except SettingsError Bool
  | .bool b => .ok b
  | .int n => .ok (n ≠ 0)
  | .double d => .ok (!d.isZero)
  | .text s =>
    match truthWord? ["1", "true", "on", "yes"] ["0", "false", "off", "no"] s with
    | some b => .ok b
    | none => .error .wrongType
  | _ => .error .wrongType

/-- The largest number that a width can be. -/
def maxWidth : Nat := 0xFFFFFFFFFFFFFFFF

/-- A width in decimal digits, which may have a plus sign. -/
def widthOfText? (s : String) : Option Nat :=
  let digits := match s.toList with
    | '+' :: cs => cs
    | cs => cs
  if digits ≠ [] ∧ digits.all Char.isDigit ∧ natOfDigits digits ≤ maxWidth then
    some (natOfDigits digits)
  else none

/-- The width that a value stands for. -/
def toWidth : Setting → Except SettingsError Nat
  | .bool b => .ok b.toNat
  | .int n => if 0 ≤ n ∧ n ≤ maxWidth then .ok n.toNat else .error .wrongType
  | .double d => .ok (d.toNatAtMost maxWidth)
  | .text s =>
    match truthWord? ["true", "on", "yes"] ["false", "off", "no"] s with
    | some b => .ok b.toNat
    | none =>
      match widthOfText? s with
      | some n => .ok n
      | none => .error .wrongType
  | _ => .error .wrongType

/-- The way of cutting that a value names: as a text, or as the only key of a table. -/
def toChunking (s : Setting) : Except SettingsError Chunking :=
  let named (name : String) : Except SettingsError Chunking :=
    match Chunking.ofName (smallLetters name) with
    | .ok c => .ok c
    | .error _ => .error .wrongShape
  match s with
  | .text name => named name
  | .table [(name, _)] => named name
  | _ => .error .wrongShape

/-- The part of a section that stands under a key, or, if the section is a list, at a place. -/
def part? (key : String) (place : Nat) : Setting → Option Setting
  | .table fields => fields.lookup key
  | .list items => items[place]?
  | _ => none

end Setting

namespace Settings

open Setting

/-- What has to be there. -/
def required {α : Type} : Option α → Except SettingsError α
  | some a => .ok a
  | none => .error .wrongShape

/-- The grammar and the way of cutting, in the section of the parse. -/
def readParse (s : Setting) : Except SettingsError (String × Chunking) := do
  let grammar ← (s.part? "grammar" 0).mapM toText
  let chunking ← (s.part? "chunking" 1).mapM toChunking
  .ok (← required grammar, ← required chunking)

/-- Whether the parse is traced, in the section of the trace. -/
def readTrace (s : Setting) : Except SettingsError Bool := do
  required (← (s.part? "enabled" 0).mapM toBool)

/-- The format and the width of a label, in the section of the output. -/
def readOutput (s : Setting) : Except SettingsError (String × Nat) := do
  let format ← (s.part? "format" 0).mapM toText
  let labelWidth ← (s.part? "label_width" 1).mapM toWidth
  .ok (← required format, ← required labelWidth)

/-- The settings in a table of values. -/
def ofSetting (root : Setting) : Except SettingsError Settings := do
  let parse ← (root.part? "parse" 0).mapM readParse
  let trace ← (root.part? "trace" 1).mapM readTrace
  let output ← (root.part? "output" 2).mapM readOutput
  let (grammar, chunking) ← required parse
  let trace ← required trace
  let (format, labelWidth) ← required output
  .ok { grammar, chunking, trace, format, labelWidth }

end Settings

end FragmentParser
