import FragmentParser.NameTable

/-!
# Document trees

A document is a tree of **nodes**. A node is an element, with a kind, attributes and children, or a
run of text. `Element` is an element taken apart from its node: the thing that a constructor fills
and that formats read.
-/

namespace FragmentParser

/-- A node of a document. -/
inductive Node where
  /-- A run of text. -/
  | text (value : String)
  /-- An element of the given kind. -/
  | element (kind : String) (attributes : Attributes) (children : List Node)

instance : Inhabited Node := ⟨.text ""⟩

/-- An element by itself. -/
structure Element where
  /-- What the element is. -/
  kind : String
  /-- Its attributes. -/
  attributes : Attributes
  /-- Its children in order. -/
  children : List Node

namespace Element

/-- An element without attributes and children. -/
def ofKind (kind : String) : Element := ⟨kind, .empty, []⟩

/-- The element as a node. -/
def toNode (e : Element) : Node := .element e.kind e.attributes e.children

/-- Set an attribute. -/
def withAttribute (e : Element) (name value : String) : Element :=
  { e with attributes := e.attributes.insert name value }

/-- Add a child behind the others. -/
def append (e : Element) (child : Node) : Element := { e with children := e.children ++ [child] }

/-- Add children behind the others. -/
def appendAll (e : Element) (children : List Node) : Element :=
  { e with children := e.children ++ children }

/-- Adding children together is adding them one by one. -/
theorem appendAll_eq_foldl (e : Element) (nodes : List Node) :
    e.appendAll nodes = nodes.foldl Element.append e := by
  induction nodes generalizing e with
  | nil => simp [appendAll]
  | cons n nodes ih =>
    rw [List.foldl_cons, ← ih]
    simp [appendAll, append]

/-- Add a run of text behind the other children. -/
def withText (e : Element) (value : String) : Element := e.append (.text value)

/-- The value of an attribute. -/
def attribute? (e : Element) (name : String) : Option String := e.attributes.get? name

end Element

namespace Node

/-- The kind of an element; a run of text is of kind `text`. -/
def kind : Node → String
  | .text _ => "text"
  | .element kind _ _ => kind

/-- The text of a node that is a run of text. -/
def text? : Node → Option String
  | .text value => some value
  | .element .. => none

/-- The element of a node that is one. -/
def element? : Node → Option Element
  | .text _ => none
  | .element kind attributes children => some ⟨kind, attributes, children⟩

/-- The children of a node; a run of text has none. -/
def children : Node → List Node
  | .text _ => []
  | .element _ _ children => children

/-- The value of an attribute; a run of text has none. -/
def attribute? (n : Node) (name : String) : Option String := n.element?.bind (·.attribute? name)

mutual

/-- Whether two nodes are the same tree. -/
def beq : Node → Node → Bool
  | .text a, .text b => a == b
  | .element k as cs, .element k' as' cs' => k == k' && as == as' && beqAll cs cs'
  | _, _ => false

/-- Whether two lists hold the same trees. -/
def beqAll : List Node → List Node → Bool
  | [], [] => true
  | n :: ns, m :: ms => beq n m && beqAll ns ms
  | _, _ => false

end

mutual

theorem eq_of_beq : (a b : Node) → beq a b = true → a = b
  | .text a, .text b, h => by simpa [beq] using h
  | .element k as cs, .element k' as' cs', h => by
    simp only [beq, Bool.and_eq_true, beq_iff_eq] at h
    obtain ⟨⟨rfl, rfl⟩, h⟩ := h
    rw [eq_of_beqAll cs cs' h]
  | .text _, .element .., h => by simp [beq] at h
  | .element .., .text _, h => by simp [beq] at h

theorem eq_of_beqAll : (as bs : List Node) → beqAll as bs = true → as = bs
  | [], [], _ => rfl
  | n :: ns, m :: ms, h => by
    simp only [beqAll, Bool.and_eq_true] at h
    rw [eq_of_beq n m h.1, eq_of_beqAll ns ms h.2]
  | [], _ :: _, h => by simp [beqAll] at h
  | _ :: _, [], h => by simp [beqAll] at h

end

mutual

theorem beq_self : (a : Node) → beq a a = true
  | .text a => by simp [beq]
  | .element k as cs => by simp [beq, beqAll_self cs]

theorem beqAll_self : (as : List Node) → beqAll as as = true
  | [] => rfl
  | n :: ns => by simp [beqAll, beq_self n, beqAll_self ns]

end

instance : DecidableEq Node := fun a b ↦
  if h : beq a b = true then isTrue (eq_of_beq a b h)
  else isFalse fun hab ↦ h (hab ▸ beq_self a)

end Node

namespace Element

/-- The runs of text among the children, joined. -/
def text (e : Element) : String := String.join (e.children.filterMap Node.text?)

/-- The elements among the children. -/
def elements (e : Element) : List Element := e.children.filterMap Node.element?

end Element

/-- The text of a node: its own, or what its children have of their own, joined. -/
def Node.content : Node → String
  | .text value => value
  | .element kind attributes children => Element.text ⟨kind, attributes, children⟩

end FragmentParser
