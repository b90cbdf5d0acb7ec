import FragmentParser.Proofs.Simulation
import FragmentParser.Tree.Basic

/-!
# Trees that grow at their right edge

While a document is parsed, its open elements are the last children of each other, from the root
down. So the tree as far as it was built says which elements are open as soon as one knows **how
many**, and a closed element needs no work at all: it stays where it is.

`Node.attach depth n t` adds `n` to the element that is reached from the root of `t` through `depth`
last children. With it trees are an assembly (`Element.edge`) in the sense of the machine, for which
closing a frame changes nothing but the stack.
-/

namespace FragmentParser

namespace Node

/-- Add a node behind the children of the element that is reached through `depth` last children. If
there is no such element, nothing happens. -/
def attach : Nat → Node → Node → Node
  | _, _, .text value => .text value
  | 0, n, .element kind attributes children => .element kind attributes (children ++ [n])
  | depth + 1, n, .element kind attributes children =>
    .element kind attributes
      (children.dropLast ++ children.getLast?.toList.map (attach depth n))

@[simp] theorem attach_text (depth : Nat) (n : Node) (value : String) :
    attach depth n (.text value) = .text value := by
  cases depth <;> rfl

@[simp] theorem attach_zero_element (n : Node) (kind : String) (attributes : Attributes)
    (children : List Node) : attach 0 n (.element kind attributes children) =
      .element kind attributes (children ++ [n]) := rfl

@[simp] theorem attach_succ_concat (depth : Nat) (n : Node) (kind : String)
    (attributes : Attributes) (children : List Node) (last : Node) :
    attach (depth + 1) n (.element kind attributes (children ++ [last])) =
      .element kind attributes (children ++ [attach depth n last]) := by
  simp [attach]

/-- What is added inside a node that was added itself may as well be added first. -/
theorem attach_attach (depth inner : Nat) (n m t : Node) :
    attach (depth + 1 + inner) n (attach depth m t) = attach depth (attach inner n m) t := by
  induction depth generalizing t with
  | zero =>
    rw [Nat.zero_add, Nat.add_comm]
    cases t with
    | text value => simp
    | element kind attributes children => simp
  | succ depth ih =>
    have hdepth : depth + 1 + 1 + inner = depth + 1 + inner + 1 := by omega
    rw [hdepth]
    cases t with
    | text value => simp
    | element kind attributes children =>
      rcases List.eq_nil_or_concat children with rfl | ⟨front, last, rfl⟩
      · rfl
      · rw [List.concat_eq_append, attach_succ_concat, attach_succ_concat, attach_succ_concat, ih]

end Node

namespace Element

/-- Trees that grow at their right edge. -/
def edge : Assembly Element Node Node where
  root := toNode
  openIn depth e t := Node.attach depth e.toNode t
  add := Node.attach
  close _ t := t
  result t := t

/-- To fill the root is to fill the tree. -/
theorem addAll_edge_toNode (e : Element) (nodes : List Node) :
    edge.addAll 0 nodes e.toNode = (nodes.foldl append e).toNode := by
  induction nodes generalizing e with
  | nil => rfl
  | cons n nodes ih => exact ih (e.append n)

/-- To fill an element that was added itself is to add it filled. -/
theorem addAll_edge_attach (depth : Nat) (e : Element) (nodes : List Node) (t : Node) :
    edge.addAll (depth + 1) nodes (Node.attach depth e.toNode t) =
      Node.attach depth (nodes.foldl append e).toNode t := by
  induction nodes generalizing e with
  | nil => rfl
  | cons n nodes ih =>
    have hn : Node.attach (depth + 1) n (Node.attach depth e.toNode t) =
        Node.attach depth (e.append n).toNode t :=
      Node.attach_attach depth 0 n e.toNode t
    show edge.addAll (depth + 1) nodes (Node.attach (depth + 1) n (Node.attach depth e.toNode t)) = _
    rw [hn, ih]
    rfl

/-- Every design of trees is kept. -/
theorem edge_keeps {C F S : Type} (parent : String) (shape : C → Shape C F S Element Node) :
    edge.Keeps (⟨parent, append, toNode, shape⟩ : Design C F S Element Node) where
  result_root := addAll_edge_toNode
  close_openIn := addAll_edge_attach

end Element

end FragmentParser
