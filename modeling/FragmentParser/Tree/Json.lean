import FragmentParser.Json.Reader
import FragmentParser.Tree.Basic

/-!
# Trees as JSON

A run of text is a JSON text; an element is an object with its kind and, where there are any, its
attributes and its children. Reading is more liberal than writing: attributes and children may be
empty or missing, fields that mean nothing are passed over, and an element may be an array of its
kind, attributes and children instead of an object.
-/

namespace FragmentParser

namespace Node

mutual

/-- The JSON value of a tree. -/
def toJson : Node → Json
  | .text value => .string value
  | .element kind attributes children =>
    let named := attributes.entries.map fun (name, value) ↦ (name, Json.string value)
    .object (("kind", .string kind) ::
      ((if named.isEmpty then [] else [("attributes", .object named)]) ++
        match childrenToJson children with
        | [] => []
        | items => [("children", .array items)]))

/-- The JSON values of trees. -/
def childrenToJson : List Node → List Json
  | [] => []
  | n :: ns => toJson n :: childrenToJson ns

end

/-- The values of the fields of one name. -/
def fieldsNamed (name : String) (fields : List (String × Json)) : List Json :=
  (fields.filter fun f ↦ f.1 = name).map Prod.snd

/-- The text of a JSON text. -/
def textOfJson? : Json → Option String
  | .string value => some value
  | _ => none

/-- The attributes of a JSON object of texts; of two with one name the later counts. -/
def attributesOfJson? : Json → Option Attributes
  | .object fields =>
    (fields.mapM fun f ↦ (textOfJson? f.2).map fun value ↦ (f.1, value)).map NameTable.ofList
  | _ => none

mutual

/-- The tree of a JSON value, if it is one. -/
def ofJson? : Json → Option Node
  | .string value => some (.text value)
  | .array items =>
    match items with
    | [kind] => do some (.element (← textOfJson? kind) .empty [])
    | [kind, attributes] => do
      some (.element (← textOfJson? kind) (← attributesOfJson? attributes) [])
    | [kind, attributes, children] => do
      some (.element (← textOfJson? kind) (← attributesOfJson? attributes)
        (← childrenOfJson? children))
    | _ => none
  | .object fields => do
    let kind ← match fieldsNamed "kind" fields with
      | [kind] => textOfJson? kind
      | _ => none
    let attributes ← match fieldsNamed "attributes" fields with
      | [] => some .empty
      | [attributes] => attributesOfJson? attributes
      | _ => none
    let children ← childrenField? fields
    some (.element kind attributes children)
  | _ => none

/-- The children in the fields of an element. -/
def childrenField? : List (String × Json) → Option (List Node)
  | [] => some []
  | (name, value) :: fields =>
    if name = "children" then
      if (fieldsNamed "children" fields).isEmpty then childrenOfJson? value else none
    else childrenField? fields

/-- The trees of a JSON array, if it has nothing else. -/
def childrenOfJson? : Json → Option (List Node)
  | .array items => nodesOfJson? items
  | _ => none

/-- The trees of JSON values, if all are. -/
def nodesOfJson? : List Json → Option (List Node)
  | [] => some []
  | j :: js => do some ((← ofJson? j) :: (← nodesOfJson? js))

end

/-- Why a text is not a tree. -/
inductive JsonFault where
  /-- The text ends too soon. -/
  | endOfText
  /-- The text is not JSON. -/
  | syntaxFault
  /-- The text is JSON, but not of a tree. -/
  | notATree
deriving DecidableEq

/-- Read the tree that a text is the JSON of. A value that is no tree is refused before anything
behind it is looked at. -/
def parseJson (s : String) : Except JsonFault Node :=
  match Json.Reader.read s with
  | .error .endOfText => .error .endOfText
  | .error .syntaxFault => .error .syntaxFault
  | .ok (value, rest) =>
    match ofJson? value with
    | none => .error .notATree
    | some tree => if (Json.Reader.skipSpace rest).isEmpty then .ok tree else .error .syntaxFault

end Node

end FragmentParser
