import FragmentParser.Proofs.Invariant

/-!
# How far a parse has come

Fragments are taken **from the front, one by one, and counted**, whatever an activity does besides.
`Session.Advances` says so of the sessions before and after it. So no fragment is dropped: those
taken and those to come are always as many as there were in the beginning (`Session.count`).
-/

namespace FragmentParser

variable {C F S Y N : Type}

namespace Session

/-- How many fragments there are in all, taken or to come. -/
def count (d : Session C F S Y) : Nat := d.taken + d.rest.length

@[simp] theorem count_start (reader : Lookahead F) (s : S) :
    (start reader s : Session C F S Y).count = reader.toList.length := Nat.zero_add _

@[simp] theorem count_record (d : Session C F S Y) (e : Event C F S Y) :
    (d.record e).count = d.count := rfl

/-- From `d` to `d'` fragments are taken from the front, and counted. -/
def Advances (d d' : Session C F S Y) : Prop :=
  ∃ xs, d.rest = xs ++ d'.rest ∧ d'.taken = d.taken + xs.length

namespace Advances

variable {d d' d'' : Session C F S Y}

/-- What leaves the fragments to come and the count alone takes none. -/
theorem of_eq (hrest : d'.rest = d.rest) (htaken : d'.taken = d.taken) : d.Advances d' :=
  ⟨[], hrest.symm, htaken⟩

theorem trans (h : d.Advances d') (h' : d'.Advances d'') : d.Advances d'' := by
  obtain ⟨xs, hrest, htaken⟩ := h
  obtain ⟨xs', hrest', htaken'⟩ := h'
  refine ⟨xs ++ xs', ?_, ?_⟩
  · rw [hrest, hrest', List.append_assoc]
  · rw [htaken', htaken, List.length_append, Nat.add_assoc]

theorem take (d : Session C F S Y) : d.Advances d.take.2 := by
  rcases hd : d.rest with _ | ⟨x, xs⟩
  · have hnone : d.reader.next.1 = none := by
      rw [d.reader.next_eq.1]
      exact congrArg List.head? hd
    refine of_eq (by rw [rest_take, hd]; rfl) ?_
    rw [Session.take]
    rcases hn : d.reader.next with ⟨_ | y, reader⟩
    · rfl
    · rw [hn] at hnone
      cases hnone
  · exact ⟨[x], by rw [rest_take, hd]; rfl, taken_take_of_rest_cons hd⟩

theorem share [Constructor C] (d : Session C F S Y) (c : C) (s : Option S) :
    d.Advances (d.share c s) :=
  of_eq (d.rest_share c s) (d.taken_share c s)

theorem count_eq (h : d.Advances d') : d'.count = d.count := by
  obtain ⟨xs, hrest, htaken⟩ := h
  rw [count, count, hrest, htaken, List.length_append, Nat.add_assoc]

theorem suffix (h : d.Advances d') : d'.rest <:+ d.rest := by
  obtain ⟨xs, hrest, -⟩ := h
  exact ⟨xs, hrest.symm⟩

/-- The fragments to come are the same exactly if none was taken. -/
theorem rest_eq_iff (h : d.Advances d') : d'.rest = d.rest ↔ d'.taken = d.taken := by
  have hcount := h.count_eq
  rw [count, count] at hcount
  constructor
  · intro hrest
    rw [hrest] at hcount
    omega
  · intro htaken
    exact h.suffix.eq_of_length (by omega)

end Advances

variable [DecidableEq S] [DecidableEq Y] [Diagnostic F] [Diagnostic S] [Diagnostic Y]

/-- A verdict takes no fragment. -/
theorem Judged.advances {g : Grammar C F S Y} {d d' : Session C F S Y} {v : Verdict C S}
    (h : d.Judged g v d') : d.Advances d' :=
  .of_eq h.rest_eq h.taken_eq

theorem Advances.invariant [Constructor C] (g : Grammar C F S Y) (d : Session C F S Y) :
    Invariant g d.Advances :=
  .of_operations (fun h ↦ h.trans (.of_eq (rest_peek _) rfl)) (fun h ↦ h.trans (.take _))
    (fun h _ ↦ h.trans (.of_eq rfl rfl)) fun h _ ↦ h.trans (.of_eq rfl rfl)

end Session

namespace Parser

variable [DecidableEq S] [DecidableEq Y] [Constructor C] [Diagnostic F] [Diagnostic S]
  [Diagnostic Y]

theorem Built.advances {g : Grammar C F S Y}
    {run : C → Option S → Session C F S Y → Reply C F S Y (Option N)}
    (hrun : ∀ {c s d outcome d'}, run c s d = some (outcome, d') → d.Advances d')
    {d d' : Session C F S Y} {nodes : List N} {ending : Ending S}
    (h : Built g run d nodes ending d') : d.Advances d' :=
  h.invariant (Session.Advances.invariant g d) (fun hr he ↦ he.trans (hrun hr)) (.of_eq rfl rfl)

/-- **No fragment is dropped.** The run of a constructor takes fragments from the front and counts
them. -/
theorem advances_of_runConstructor {p : Parser C F S Y N} {bound : Nat} {c : C} {s : Option S}
    {d d' : Session C F S Y} {outcome : Except ParseError (Option N)}
    (h : p.runConstructor bound c s d = some (outcome, d')) : d.Advances d' :=
  invariant_of_runConstructor (Session.Advances.invariant p.grammar d) h (.of_eq rfl rfl)

/-- At every moment of a parse the fragments that are not to come have been taken. -/
theorem Reaches.advances {p : Parser C F S Y N} {reader : Lookahead F} {n : Nat}
    {m : Moment C F S Y N} {d : Session C F S Y} (h : p.Reaches reader n m d) :
    (Session.start reader p.grammar.initialState).Advances d := by
  obtain ⟨xs, hrest, htaken⟩ :=
    h.invariant (Session.Advances.invariant p.grammar _) (.of_eq rfl rfl)
  exact ⟨xs, by rw [hrest, m.rest_settle], by rw [← htaken, m.taken_settle]⟩

end Parser

end FragmentParser
