import FragmentParser.Number.Digits
import FragmentParser.Text.Lines
import FragmentParser.Text.Quoted
import FragmentParser.Tree.Basic

/-!
# Expectations on trees

What a test expects of a tree is a list of **expectations**, checked in order, of which one may look
inside a child. The first that fails is reported with the path of the node it is about, such as
`body[0][2]`.
-/

namespace FragmentParser

/-- Something that a node is expected to be like. -/
inductive Expectation where
  /-- The node is of this kind. -/
  | kind (expected : String)
  /-- An attribute has this value. -/
  | attribute (name expected : String)
  /-- There is no such attribute. -/
  | noAttribute (name : String)
  /-- The text is this. -/
  | text (expected : String)
  /-- The text begins with this. -/
  | textStartsWith (expected : String)
  /-- The text has this inside. -/
  | textContains (expected : String)
  /-- There are so many children. -/
  | childCount (expected : Nat)
  /-- All children are of this kind. -/
  | allChildren (expected : String)
  /-- The child at an index is like all of these. -/
  | child (index : Nat) (expected : List Expectation)

namespace Expectation

/-- The text of an optional value in a message. -/
def foundText : Option String → String
  | none => "None"
  | some s => "Some(" ++ Text.quote s ++ ")"

/-- The path of a child. -/
def childPath (path : String) (index : Nat) : String := path ++ "[" ++ decimalText index ++ "]"

/-- Fail with a message about the node at `path`, unless the condition holds. -/
def require (condition : Bool) (path message : String) : Except String Unit :=
  if condition then .ok () else .error (path ++ ": " ++ message)

/-- The message for a node of another kind. -/
def kindMessage (expected : String) (n : Node) : String :=
  "Expected kind '" ++ expected ++ "', found '" ++ n.kind ++ "'"

/-- Check that nodes, the first of which has the given index, are of one kind. -/
def checkKinds (path expected : String) (index : Nat) : List Node → Except String Unit
  | [] => .ok ()
  | n :: ns => do
    require (n.kind = expected) (childPath path index) (kindMessage expected n)
    checkKinds path expected (index + 1) ns

mutual

/-- Check a node against one expectation. -/
def check (path : String) (n : Node) : Expectation → Except String Unit
  | .kind expected => require (n.kind = expected) path (kindMessage expected n)
  | .attribute name expected =>
    require (n.attribute? name = some expected) path
      ("Expected attribute " ++ name ++ "='" ++ expected ++ "', found " ++
        foundText (n.attribute? name))
  | .noAttribute name =>
    require (n.attribute? name).isNone path
      ("Expected no attribute '" ++ name ++ "', found " ++ foundText (n.attribute? name))
  | .text expected =>
    require (n.content = expected) path
      ("Expected text to be '" ++ expected ++ "', but got '" ++ n.content ++ "'")
  | .textStartsWith expected =>
    require (expected.toList.isPrefixOf n.content.toList) path
      ("Expected text to start with '" ++ expected ++ "', but got '" ++ n.content ++ "'")
  | .textContains expected =>
    require (Text.contains expected.toList n.content.toList) path
      ("Expected text to contain '" ++ expected ++ "', but got '" ++ n.content ++ "'")
  | .childCount expected =>
    require (n.children.length = expected) path
      ("Expected " ++ decimalText expected ++ " children, found " ++
        decimalText n.children.length ++ " children: [" ++
        ", ".intercalate (n.children.map Node.kind) ++ "]")
  | .allChildren expected => checkKinds path expected 0 n.children
  | .child index expected =>
    match n.children[index]? with
    | some n => checkAll (childPath path index) n expected
    | none =>
      .error (path ++ ": Child index " ++ decimalText index ++ " out of bounds (" ++
        decimalText n.children.length ++ " children)")

/-- Check a node against expectations in order. -/
def checkAll (path : String) (n : Node) : List Expectation → Except String Unit
  | [] => .ok ()
  | e :: es => do
    check path n e
    checkAll path n es

end

/-- Check a tree; the path begins with the kind of its root. -/
def checkTree (tree : Node) (expected : List Expectation) : Except String Unit :=
  checkAll tree.kind tree expected

end Expectation

end FragmentParser
