import FragmentParser.Proofs.Machine

/-!
# Piles of open elements

The plainest way to keep the elements under construction: one on top of the other, each with the
children that it has so far. Closing a frame takes the innermost element off and appends its node to
the next. With a pile the machine has **one element for each state**, so that an invariant of a
parse is a relation between the frames of the two stacks. What one step preserves holds of every
configuration that a run leads to, and of the one in which it ends (`Design.exists_leads`).
-/

namespace FragmentParser

variable {C F S E N : Type}

/-- Open elements: the innermost one, and the others from there outwards. -/
structure Pile (E : Type) where
  /-- The innermost element. -/
  top : E
  /-- The elements around it, the nearest first. -/
  below : List E

namespace Design

/-- The assembly that keeps open elements on a pile. -/
def pile (d : Design C F S E N) : Assembly E N (Pile E) where
  root e := ⟨e, []⟩
  openIn _ e w := ⟨e, w.top :: w.below⟩
  add _ n w := { w with top := d.append w.top n }
  close _ w :=
    match w.below with
    | [] => w
    | e :: rest => ⟨d.append e (d.finish w.top), rest⟩
  result w := d.finish w.top

/-- Nodes are added to the innermost element. -/
theorem addAll_pile (d : Design C F S E N) (depth : Nat) (nodes : List N) (w : Pile E) :
    d.pile.addAll depth nodes w = { w with top := nodes.foldl d.append w.top } := by
  induction nodes generalizing w with
  | nil => rfl
  | cons n nodes ih => exact ih _

/-- Piles keep every design. -/
theorem pile_keeps (d : Design C F S E N) : d.pile.Keeps d where
  result_root e nodes := by
    rw [addAll_pile]
    rfl
  close_openIn depth e nodes w := by
    rw [addAll_pile]
    rfl

end Design

end FragmentParser
