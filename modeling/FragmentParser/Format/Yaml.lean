import FragmentParser.Format.YamlScalar
import FragmentParser.Tree.Basic

/-!
# Trees as YAML

A run of text is a scalar; an element is a mapping with its kind and, where there are any, its
attributes and its children. Mappings go two columns further in, and the items of a sequence stand
in the column of the key that they belong to.

A name of an attribute stands in front of its colon if it is short and on one line; otherwise it is
a **marked key**, on lines of its own behind a question mark.
-/

namespace FragmentParser.Format.Yaml

/-- The longest name, in bytes, that stands in front of its colon. -/
def maxPlainKey : Nat := 128

/-- Whether a name can stand in front of its colon. -/
def isShortKey (name : String) : Bool :=
  name.utf8ByteSize ≤ maxPlainKey && !name.toList.any isBreak

/-- An attribute on lines of its own at the given column. -/
def attributeChars (column : Nat) (a : String × String) : List Char :=
  let value := ' ' :: scalarChars (column + 2) a.2
  indentation column ++
    if isShortKey a.1 then inlineChars (column + 2) a.1 ++ ':' :: value
    else ['?', ' '] ++ scalarChars (column + 2) a.1 ++ indentation column ++ ':' :: value

mutual

/-- A node whose first line has been begun at the given column. -/
def nodeChars (column : Nat) : Node → List Char
  | .text value => scalarChars column value
  | .element kind attributes children =>
    "kind: ".toList ++ scalarChars (column + 2) kind ++
      (if attributes.isEmpty then []
        else indentation column ++ "attributes:\n".toList ++
          attributes.entries.flatMap (attributeChars (column + 2))) ++
      match children with
      | [] => []
      | child :: children =>
        indentation column ++ "children:\n".toList ++ indentation column ++ ['-', ' '] ++
          nodeChars (column + 2) child ++ itemsChars column children

/-- The items of a sequence, each behind a dash. -/
def itemsChars (column : Nat) : List Node → List Char
  | [] => []
  | n :: ns =>
    indentation column ++ ['-', ' '] ++ nodeChars (column + 2) n ++ itemsChars column ns

end

/-- The YAML of a tree. -/
def render : Node → String
  | .text value => String.ofList (scalarChars 2 value)
  | tree => String.ofList (nodeChars 0 tree)

end FragmentParser.Format.Yaml
