import FragmentParser.Diagnostic

/-!
# The state stack

One state per open constructor frame, the innermost on top. The bottom entry belongs to the root
and is never popped, so a stack **is never empty by its type**: `top` always exists, and only
`replaceCaller?`, which needs an entry below the top, can fail.

`StateStack.toList` is the view from the bottom, the order in which a stack is written.
-/

namespace FragmentParser

/-- The states of the open frames: the innermost one, and the others from there outwards. -/
structure StateStack (S : Type) where
  /-- The state of the innermost frame. -/
  top : S
  /-- The states of the enclosing frames, the nearest first. -/
  below : List S
deriving DecidableEq

namespace StateStack

variable {S : Type}

/-- The stack of the root alone. -/
def root (s : S) : StateStack S := ⟨s, []⟩

/-- Open a frame in state `s`. -/
def push (σ : StateStack S) (s : S) : StateStack S := ⟨s, σ.top :: σ.below⟩

/-- Close the innermost frame. The root has no frame to return to and stays. -/
def pop (σ : StateStack S) : StateStack S :=
  match σ.below with
  | [] => σ
  | s :: rest => ⟨s, rest⟩

/-- How many frames are open. -/
def depth (σ : StateStack S) : Nat := σ.below.length + 1

/-- The states from the bottom to the top. -/
def toList (σ : StateStack S) : List S := (σ.top :: σ.below).reverse

/-- Whether some frame is in state `s`. -/
def contains [DecidableEq S] (σ : StateStack S) (s : S) : Bool := decide (s ∈ σ.top :: σ.below)

/-- Put the innermost frame into state `s`. -/
def replaceTop (σ : StateStack S) (s : S) : StateStack S := { σ with top := s }

/-- Put the frame that encloses the innermost one into state `s`, and tell the state it had;
nothing at the root. -/
def replaceCaller? (σ : StateStack S) (s : S) : Option (S × StateStack S) :=
  match σ.below with
  | [] => none
  | old :: rest => some (old, ⟨σ.top, s :: rest⟩)

/-- The states from the bottom, between slashes. -/
def path [Diagnostic S] (σ : StateStack S) : String := "/".intercalate (σ.toList.map text)

/-! ### What each operation does to the view -/

@[simp] theorem toList_root (s : S) : (root s).toList = [s] := rfl

@[simp] theorem toList_push (σ : StateStack S) (s : S) : (σ.push s).toList = σ.toList ++ [s] := by
  simp [push, toList]

@[simp] theorem pop_push (σ : StateStack S) (s : S) : (σ.push s).pop = σ := rfl

@[simp] theorem length_toList (σ : StateStack S) : σ.toList.length = σ.depth := by
  simp [toList, depth]

@[simp] theorem depth_push (σ : StateStack S) (s : S) : (σ.push s).depth = σ.depth + 1 := rfl

@[simp] theorem depth_replaceTop (σ : StateStack S) (s : S) : (σ.replaceTop s).depth = σ.depth :=
  rfl

/-- Only the root has no caller to replace. -/
theorem replaceCaller?_eq_none_iff {σ : StateStack S} {s : S} :
    σ.replaceCaller? s = none ↔ σ.depth = 1 := by
  obtain ⟨top, below⟩ := σ
  cases below <;> simp [replaceCaller?, depth]

/-- A replaced caller leaves the depth and the top alone. -/
theorem depth_of_replaceCaller? {σ τ : StateStack S} {s old : S}
    (h : σ.replaceCaller? s = some (old, τ)) : τ.depth = σ.depth ∧ τ.top = σ.top := by
  obtain ⟨top, below⟩ := σ
  cases below with
  | nil => simp [replaceCaller?] at h
  | cons b rest =>
    simp only [replaceCaller?, Option.some.injEq, Prod.mk.injEq] at h
    obtain ⟨-, rfl⟩ := h
    simp [depth]

@[simp] theorem contains_iff [DecidableEq S] {σ : StateStack S} {s : S} :
    σ.contains s = true ↔ s ∈ σ.toList := by
  simp [contains, toList, or_comm]

end StateStack

end FragmentParser
