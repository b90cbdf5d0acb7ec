import FragmentParser.Proofs.StackDiscipline

/-!
# Invariants of parses

Whatever its constructors are, a parse does few things to its session: it looks ahead, takes a
fragment, records that children are built, judges a fragment, and opens and closes frames. What each
of these keeps is a `Session.Invariant`. It is kept by all activities (`Parser.Built.invariant`,
`Parser.invariant_of_runConstructor`) and holds **at every moment** (`Parser.Reaches.invariant`), in
parses without an end as well.

A verdict to run a constructor and what the constructor does to the current state before it runs
are one thing here. At the moment between them a decision is under way, of which nothing is said
until it is settled (`Parser.Moment.settle`). A property of neither stack nor log is an invariant
sooner (`Session.Invariant.of_operations`).
-/

namespace FragmentParser

variable {C F S Y N : Type} [Constructor C]

namespace Parser

/-- The session once the decision that is under way has been settled. -/
def Moment.settle : Moment C F S Y N → Session C F S Y → Session C F S Y
  | .judged (.construct c s), d => d.share c s
  | _, d => d

/-- To settle a decision takes no fragment. -/
theorem Moment.rest_settle (m : Moment C F S Y N) (d : Session C F S Y) :
    (m.settle d).rest = d.rest := by
  unfold settle
  split
  · exact d.rest_share _ _
  · rfl

theorem Moment.taken_settle (m : Moment C F S Y N) (d : Session C F S Y) :
    (m.settle d).taken = d.taken := by
  unfold settle
  split
  · exact d.taken_share _ _
  · rfl

end Parser

variable [DecidableEq S] [DecidableEq Y] [Diagnostic F] [Diagnostic S] [Diagnostic Y]

namespace Session

variable {g : Grammar C F S Y} {I : Session C F S Y → Prop}

/-- What everything that a parse does to its session keeps. -/
structure Invariant (g : Grammar C F S Y) (I : Session C F S Y → Prop) : Prop where
  /-- A look at the next fragment keeps it. -/
  peek : ∀ {d}, I d → I d.peek.2
  /-- Taking it does. -/
  take : ∀ {d}, I d → I d.take.2
  /-- It may be recorded that children are built. -/
  children : ∀ {d}, I d → ∀ parent, I (d.record (.children parent))
  /-- A verdict that ends the building keeps it. -/
  finish : ∀ {d ending d'}, d.Judged g (.finish ending) d' → I d → I d'
  /-- So does one that runs a constructor, with what that does to the current state. -/
  construct : ∀ {d c s d'}, d.Judged g (.construct c s) d' → I d → I (d'.share c s)
  /-- A frame may be opened. -/
  openFrame : ∀ {d}, I d → ∀ s, I (d.openFrame s)
  /-- It may be closed. -/
  closeFrame : ∀ {d}, I d → I d.closeFrame

/-- Verdicts need no thought if every event may be recorded and every stack be put in place. -/
theorem Invariant.of_operations (hpeek : ∀ {d}, I d → I d.peek.2)
    (htake : ∀ {d}, I d → I d.take.2) (hrecord : ∀ {d}, I d → ∀ event, I (d.record event))
    (hstack : ∀ {d}, I d → ∀ σ, I { d with stack := σ }) : Invariant g I := by
  have hresolved : ∀ {d}, I d → ∀ x y t, I (d.resolved g x y t) :=
    fun h _ _ _ ↦ hrecord (hrecord (hpeek h) _) _
  refine ⟨hpeek, htake, fun h _ ↦ hrecord h _, fun hj h ↦ ?_, fun hj h ↦ ?_, fun h _ ↦ hstack h _,
    fun h ↦ hstack h _⟩
  · cases hj with
    | exhausted | unmatched => exact hrecord (hpeek h) _
    | stopped | orphaned => exact hresolved h _ _ _
    | redirected => exact hrecord (hstack (hresolved h _ _ _) _) _
  · obtain ⟨x, xs, y, -, -, rfl⟩ := hj.exists_resolved
    unfold share
    split
    · exact hrecord (hstack (hresolved h _ _ _) _) _
    · exact hresolved h _ _ _

end Session

open Session

namespace Parser

variable {I : Session C F S Y → Prop} {p : Parser C F S Y N} {bound : Nat}
  {d d' : Session C F S Y}

theorem Built.invariant {g : Grammar C F S Y}
    {run : C → Option S → Session C F S Y → Reply C F S Y (Option N)} (hI : Invariant g I)
    (hrun : ∀ {c s d outcome d'}, run c s d = some (outcome, d') → I d → I d')
    {nodes : List N} {ending : Ending S} (h : Built g run d nodes ending d') (hd : I d) : I d' := by
  induction h with
  | finish hj => exact hI.finish hj hd
  | childFailed hj hr => exact hrun hr (hI.construct hj hd)
  | stalled hj hr => exact hrun hr (hI.construct hj hd)
  | next hj hr _ _ ih => exact ih (hrun hr (hI.construct hj hd))

theorem invariant_of_runConstructor (hI : Invariant p.grammar I) {c : C} {s : Option S}
    {outcome : Except ParseError (Option N)}
    (h : p.runConstructor bound c s d = some (outcome, d')) (hd : I d) : I d' := by
  induction bound generalizing c s d d' outcome with
  | zero => cases h
  | succ bound ih =>
    obtain ⟨e, hf, rfl⟩ := exists_follow_of_runConstructor h
    exact hI.closeFrame (Recipe.invariant_of_follow hI.peek hI.take (fun he ↦ hI.children he _)
      (fun hb ↦ (built_of_buildChildren hb).invariant hI ih) ih hf (hI.openFrame hd s))

/-- **Invariants hold at every moment** of a parse in whose beginning they hold. -/
theorem Reaches.invariant (hI : Invariant p.grammar I) {reader : Lookahead F} {n : Nat}
    {m : Moment C F S Y N} (h : p.Reaches reader n m d)
    (hstart : I (.start reader p.grammar.initialState)) : I (m.settle d) := by
  induction h with
  | root => exact hstart
  | peek _ ih => exact hI.peek ih
  | take _ ih => exact hI.take ih
  | inspect _ ih | child _ ih | call _ ih => exact ih
  | build _ ih => exact hI.children ih _
  | @judge n d _ ih =>
    have hj := d.judged p.grammar
    generalize d.judge p.grammar = verdict at hj ⊢
    obtain ⟨ending | ⟨c, s⟩, d'⟩ := verdict
    · exact hI.finish hj ih
    · exact hI.construct hj ih
  | again _ hr _ ih | leave _ hr ih | resume _ hr ih => exact invariant_of_runConstructor hI hr ih
  | built _ hb ih =>
    exact (built_of_buildChildren hb).invariant hI (invariant_of_runConstructor hI)
      (hI.children ih _)
  | enter _ ih => exact hI.openFrame ih _

/-- They hold in the end. -/
theorem invariant_of_run (hI : Invariant p.grammar I) {reader : Lookahead F}
    {outcome : Except ParseError N} (h : p.run bound reader = some (outcome, d))
    (hstart : I (.start reader p.grammar.initialState)) : I d := by
  obtain ⟨outcome', hreach⟩ := exists_reaches_of_run h
  exact hreach.invariant hI hstart

end Parser

end FragmentParser
