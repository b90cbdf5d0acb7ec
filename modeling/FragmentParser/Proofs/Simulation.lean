import FragmentParser.Proofs.Machine

/-!
# Parsers and their machines agree

A parser with a design comes to what its machine comes to (`Design.Describes.run_eq`).

The recursion of the parser is on its bound, and so is the induction: when a constructor is run, the
constructors that its children need are run with a smaller one. What is proved for a run is
`Design.Agrees`, which is about the machine **with whatever is open around the constructor**, for
the machine does not return to a caller; it comes to the point where the run is over. Building
children comes between: an iteration that ends the building is one step of the machine, and an
iteration that runs a constructor is what `Design.Agrees` says (`Design.comes_of_built`).

A constructor that succeeds has taken a fragment, so that in a parser with a design no iteration
stalls.
-/

namespace FragmentParser

variable {C F S Y E N W : Type}

namespace Recipe

variable {α : Type} [DecidableEq S] [DecidableEq Y] {g : Grammar C F S Y}
  {build : Session C F S Y → Harvest C F S Y N}
  {run : C → Option S → Session C F S Y → Reply C F S Y (Option N)}

/-- With a fragment to come `Recipe.next` hands it over. -/
theorem follow_next_bind [Diagnostic S] (f : F → Recipe C F S Y N α) {d : Session C F S Y} {x : F} {xs : List F}
    (hd : d.rest = x :: xs) :
    (next >>= f).follow g build run d = (f x).follow g build run d.take.2 := by
  have hx : d.take.1 = some x := by
    rw [Session.take_fst, hd]
    rfl
  show (Recipe.bind next f).follow g build run d = _
  rw [next, Recipe.bind, follow, hx]
  rfl

/-- A recipe that ends with what it makes of the children built. -/
theorem follow_childrenOf_bind (parent : String) (h : List N → α) (d : Session C F S Y) :
    (childrenOf parent >>= fun nodes ↦ pure (h nodes)).follow g build run d =
      match build (d.record (.children parent)) with
      | none => none
      | some (nodes, ending, d') => some (ending.outcome.map fun _ ↦ h nodes, d') := by
  show follow g build run (.children parent fun nodes outcome ↦
    (done (outcome.map fun _ ↦ nodes)).bind fun nodes ↦ done (.ok (h nodes))) d = _
  rw [follow]
  rcases build (d.record (.children parent)) with _ | ⟨nodes, ending, d'⟩
  · rfl
  · cases ending <;> rfl

/-- A recipe that goes on with the node of another constructor. -/
theorem follow_childOf_bind (c : C) (s : Option S) (f : Option N → Recipe C F S Y N α)
    (d : Session C F S Y) :
    (childOf c s >>= f).follow g build run d =
      match run c s d with
      | none => none
      | some (.error e, d') => some (.error e, d')
      | some (.ok node, d') => (f node).follow g build run d' := by
  show follow g build run (.child c s fun outcome ↦ (done outcome).bind f) d = _
  rw [follow]
  rcases run c s d with _ | ⟨_ | node, d'⟩ <;> rfl

end Recipe

namespace Design

variable [DecidableEq S] [DecidableEq Y] [Constructor C] [Diagnostic F] [Diagnostic S]
  [Diagnostic Y] {d : Design C F S E N} {a : Assembly E N W} {p : Parser C F S Y N}

/-- Where the machine is after the building of children that ended like this. -/
def conclude (a : Assembly E N W) : Ending S → StateStack S → W → List F → Next F S W N
  | .failed e, _, _, _ | .childFailed e, _, _, _ => .inr (.error e)
  | .exhausted, σ, w, xs | .stopped, σ, w, xs | .redirected _, σ, w, xs => leave a σ w xs

/-- Where the run of constructor `c` from `e` begins, the machine comes to where it is over, at `e'`
with its node added, or fails as it does; unless it fails it has taken a fragment. -/
def Agrees (d : Design C F S E N) (a : Assembly E N W) (g : Grammar C F S Y) (c : C) (s : Option S)
    (e : Session C F S Y) (outcome : Except ParseError (Option N)) (e' : Session C F S Y) : Prop :=
  ∀ {x xs}, e.rest = x :: xs → e.taken ≤ e'.taken ∧
    match outcome with
    | .ok node => e.taken < e'.taken ∧ ∀ w, d.Comes a g (enter d a c s e.stack w x xs)
        (.inl ⟨e'.stack, a.addAll e.stack.below.length node.toList w, e'.rest⟩)
    | .error err => ∀ w, d.Comes a g (enter d a c s e.stack w x xs) (.inr (.error err))

section Building

variable {g : Grammar C F S Y} {run : C → Option S → Session C F S Y → Reply C F S Y (Option N)}

/-- The verdict that ends the building of children is the machine's own. -/
theorem step_of_judged {e e' : Session C F S Y} {ending : Ending S}
    (h : e.Judged g (.finish ending) e') (w : W) :
    d.step a g ⟨e.stack, w, e.rest⟩ = conclude a ending e'.stack w e'.rest := by
  rw [h.rest_eq]
  cases h with
  | exhausted hd =>
    rw [hd]
    rfl
  | unmatched hd ht =>
    rw [hd]
    simp only [step, ht]
    rfl
  | stopped hd ht =>
    rw [hd]
    simp only [step, ht]
    rfl
  | redirected hd ht hσ =>
    rw [hd]
    simp only [step, ht, hσ]
    rfl
  | orphaned hd ht hσ =>
    rw [hd]
    simp only [step, ht, hσ]
    rfl

/-- The verdict that runs a constructor too. -/
theorem exists_step_of_judged
    (hroot : ∀ {σ x y c s}, g.transition? σ x = some (y, .construct c s) → ∀ e, d.shape c ≠ .root e)
    {e e₁ : Session C F S Y} {c : C} {s : Option S} (h : e.Judged g (.construct c s) e₁) :
    ∃ x xs, (∀ e, d.shape c ≠ .root e) ∧ (e₁.share c s).rest = x :: xs ∧
      ∀ w, d.step a g ⟨e.stack, w, e.rest⟩ = enter d a c s (e₁.share c s).stack w x xs := by
  obtain ⟨x, xs, y, hd, ht, rfl⟩ := h.exists_resolved
  refine ⟨x, xs, hroot ht, by simpa using hd, fun w ↦ ?_⟩
  rw [hd]
  simp only [step, ht, Session.stack_share, Session.stack_resolved]

/-- The machine builds the same children. -/
theorem comes_of_built (hrun : ∀ {c s e outcome e'}, (∀ e, d.shape c ≠ .root e) →
      run c s e = some (outcome, e') → d.Agrees a g c s e outcome e')
    (hbeside : ∀ {c s e outcome e'}, run c s e = some (outcome, e') → e.Beside e')
    (hroot : ∀ {σ x y c s}, g.transition? σ x = some (y, .construct c s) → ∀ e, d.shape c ≠ .root e)
    {e e' : Session C F S Y} {nodes : List N} {ending : Ending S}
    (h : Parser.Built g run e nodes ending e') :
    e.taken ≤ e'.taken ∧ ∀ w, d.Comes a g (.inl ⟨e.stack, w, e.rest⟩)
      (conclude a ending e'.stack (a.addAll e.stack.below.length nodes w) e'.rest) := by
  have htaken : ∀ {e e₁ : Session C F S Y} {c s}, e.Judged g (.construct c s) e₁ →
      e₁.taken = e.taken ∧ (e₁.share c s).taken = e.taken ∧
        (e₁.share c s).stack.below = e.stack.below := by
    intro e e₁ c s hj
    obtain ⟨x, xs, y, -, -, rfl⟩ := hj.exists_resolved
    simp
  induction h with
  | finish hj =>
    exact ⟨Nat.le_of_eq hj.taken_eq.symm, fun w ↦ .single ⟨_, rfl, step_of_judged hj w⟩⟩
  | childFailed hj hr =>
    obtain ⟨x, xs, hne, hrest, hstep⟩ := exists_step_of_judged hroot hj
    obtain ⟨hle, herror⟩ := hrun hne hr hrest
    exact ⟨(htaken hj).2.1 ▸ hle, fun w ↦ .head ⟨_, rfl, hstep w⟩ (herror w)⟩
  | stalled hj hr hstall _ =>
    -- a constructor that returned has taken a fragment
    obtain ⟨x, xs, hne, hrest, -⟩ := exists_step_of_judged (a := a) hroot hj
    obtain ⟨-, hlt, -⟩ := hrun hne hr hrest
    obtain ⟨h₁, hshare, -⟩ := htaken hj
    omega
  | @next e e₁ e₂ e' c s node nodes ending hj hr _ _ ih =>
    obtain ⟨x, xs, hne, hrest, hstep⟩ := exists_step_of_judged hroot hj
    obtain ⟨-, hlt, hnode⟩ := hrun hne hr hrest
    obtain ⟨-, hshare, hbelow⟩ := htaken hj
    obtain ⟨hle, hlater⟩ := ih
    refine ⟨by omega, fun w ↦ .head ⟨_, rfl, hstep w⟩ ((hnode w).trans ?_)⟩
    -- the node is added where the later ones are, since the run left the frames below alone
    rw [a.addAll_append, ← hbelow, ← (hbeside hr).below_eq]
    exact hlater _

/-- When the children of an element are built and its frame is closed, its node has been added to
the element around it. -/
theorem comes_of_frame (ha : a.Keeps d)
    (hrun : ∀ {c s e outcome e'}, (∀ e, d.shape c ≠ .root e) →
      run c s e = some (outcome, e') → d.Agrees a g c s e outcome e')
    (hbeside : ∀ {c s e outcome e'}, run c s e = some (outcome, e') → e.Beside e')
    (hroot : ∀ {σ x y c s}, g.transition? σ x = some (y, .construct c s) → ∀ e, d.shape c ≠ .root e)
    {e e' : Session C F S Y} {nodes : List N} {ending : Ending S}
    (h : Parser.Built g run e nodes ending e') {depth : Nat}
    (hdepth : e.stack.below.length = depth + 1) :
    e.taken ≤ e'.taken ∧ ∀ w el first,
      d.Comes a g (.inl ⟨e.stack, a.addAll (depth + 1) first (a.openIn depth el w), e.rest⟩)
        (match ending.outcome with
        | .ok () => .inl ⟨e'.stack.pop,
            a.add depth (d.finish ((first ++ nodes).foldl d.append el)) w, e'.rest⟩
        | .error err => .inr (.error err)) := by
  obtain ⟨hle, hcomes⟩ := comes_of_built hrun hbeside hroot h
  have hlength : e'.stack.below.length = depth + 1 :=
    (Nat.succ.inj (h.within hbeside).depth_eq).trans hdepth
  refine ⟨hle, fun w el first ↦ ?_⟩
  have hend := hcomes (a.addAll (depth + 1) first (a.openIn depth el w))
  rw [hdepth, ← a.addAll_append] at hend
  cases ending with
  | exhausted | stopped | redirected =>
    rw [conclude, leave_of_length a hlength, ha.close_openIn] at hend
    exact hend
  | failed | childFailed => exact hend

end Building

section Constructor

variable (h : d.Describes p) (ha : a.Keeps d) {bound : Nat}
  (ih : ∀ {c s e outcome e'}, (∀ e, d.shape c ≠ .root e) →
    p.runConstructor bound c s e = some (outcome, e') → d.Agrees a p.grammar c s e outcome e')
  {c : C} {s : Option S} {e e' : Session C F S Y} {outcome : Except ParseError (Option N)}

/-- A leaf. -/
theorem agrees_leaf {make : F → Option N} (hshape : d.shape c = .leaf make)
    {build : Session C F S Y → Harvest C F S Y N}
    {run : C → Option S → Session C F S Y → Reply C F S Y (Option N)} {g : Grammar C F S Y}
    (hf : (d.recipe (.leaf make)).follow g build run (e.openFrame s) = some (outcome, e')) :
    d.Agrees a g c s e outcome e'.closeFrame := by
  intro x xs hd
  have hopen : (e.openFrame s).rest = x :: xs := hd
  rw [Design.recipe, Recipe.follow_next_bind _ hopen] at hf
  cases hf
  have htaken : (e.openFrame s).take.2.closeFrame.taken = e.taken + 1 :=
    Session.taken_take_of_rest_cons hopen
  have hrest : (e.openFrame s).take.2.closeFrame.rest = xs := by
    rw [Session.rest_closeFrame, Session.rest_take, hopen]
    rfl
  refine ⟨by omega, by omega, fun w ↦ ?_⟩
  rw [hrest, Session.stack_closeFrame, Session.stack_take, enter, hshape]
  exact .refl

include h ha ih

/-- A container. -/
theorem agrees_container {start : F → E} (hshape : d.shape c = .container start)
    (hf : (d.recipe (.container start)).follow p.grammar
      (Parser.buildChildren p.grammar (p.runConstructor bound) bound) (p.runConstructor bound)
      (e.openFrame s) = some (outcome, e')) :
    d.Agrees a p.grammar c s e outcome e'.closeFrame := by
  intro x xs hd
  have hopen : (e.openFrame s).rest = x :: xs := hd
  have htaken : (e.openFrame s).take.2.taken = e.taken + 1 := Session.taken_take_of_rest_cons hopen
  have hrest : (e.openFrame s).take.2.rest = xs := by
    rw [Session.rest_take, hopen]
    rfl
  rw [Design.recipe, Recipe.follow_next_bind _ hopen, Recipe.follow_childrenOf_bind] at hf
  rcases hb : Parser.buildChildren p.grammar (p.runConstructor bound) bound
    ((e.openFrame s).take.2.record (.children d.parent)) with _ | ⟨nodes, ending, e₂⟩
  · simp [hb] at hf
  · simp only [hb, Option.some.injEq, Prod.mk.injEq] at hf
    obtain ⟨rfl, rfl⟩ := hf
    have hdepth : ((e.openFrame s).take.2.record (.children d.parent)).stack.below.length =
        e.stack.below.length + 1 := by
      rw [Session.stack_record, Session.stack_take]
      rfl
    obtain ⟨hle, hfinish⟩ := comes_of_frame ha ih Parser.beside_of_runConstructor h.transition
      (Parser.built_of_buildChildren hb) hdepth
    rw [Session.taken_record, htaken] at hle
    rw [Session.rest_record, hrest, Session.stack_record, Session.stack_take] at hfinish
    -- the machine opens the element at once, and then builds its children as the parser does
    have henter : ∀ w, enter d a c s e.stack w x xs =
        .inl ⟨(e.openFrame s).stack, a.openIn e.stack.below.length (start x) w, xs⟩ := by
      intro w
      rw [enter, hshape]
      rfl
    refine ⟨by rw [Session.taken_closeFrame]; omega, ?_⟩
    rcases ho : ending.outcome with err | _ <;> rw [ho] at hfinish
    · intro w
      rw [henter]
      exact hfinish w (start x) []
    · refine ⟨by rw [Session.taken_closeFrame]; omega, fun w ↦ ?_⟩
      rw [henter]
      exact hfinish w (start x) []

/-- A series. -/
theorem agrees_series {start : Option F → Except ParseError E} {first : C} {item : F → E}
    {s' : Option S} (hshape : d.shape c = .series start first item s')
    (hf : (d.recipe (.series start first item s')).follow p.grammar
      (Parser.buildChildren p.grammar (p.runConstructor bound) bound) (p.runConstructor bound)
      (e.openFrame s) = some (outcome, e')) :
    d.Agrees a p.grammar c s e outcome e'.closeFrame := by
  intro x xs hd
  have hopen : (e.openFrame s).peek.2.rest = x :: xs := (e.openFrame s).rest_peek.trans hd
  have hx : (e.openFrame s).peek.1 = some x := by
    rw [Session.peek_fst, Session.rest_openFrame, hd]
    rfl
  change ((Recipe.done (start (e.openFrame s).peek.1) >>= fun el ↦ Recipe.childOf first s' >>=
    fun head ↦ Recipe.childrenOf d.parent >>= fun nodes ↦ pure (some (d.finish
      ((head.toList ++ nodes).foldl d.append el)))).follow p.grammar _ _ (e.openFrame s).peek.2) =
      some (outcome, e') at hf
  rw [hx] at hf
  rcases hstart : start (some x) with err | el <;> rw [hstart] at hf
  · cases hf
    refine ⟨Nat.le_refl _, fun w ↦ ?_⟩
    simp only [enter, hshape, hstart]
    exact .refl
  · -- the machine opens the frame of the first child at the same time
    have henter : ∀ w, enter d a c s e.stack w x xs =
        enter d a first s' (e.openFrame s).stack (a.openIn e.stack.below.length el w) x xs := by
      intro w
      simp only [enter, hshape, hstart, h.first hshape]
      rfl
    have hne : ∀ e, d.shape first ≠ .root e := by
      intro e hroot
      rw [h.first hshape] at hroot
      cases hroot
    change ((Recipe.childOf first s' >>= _).follow p.grammar _ _ _) = some (outcome, e') at hf
    rw [Recipe.follow_childOf_bind] at hf
    rcases hr : p.runConstructor bound first s' (e.openFrame s).peek.2 with _ | ⟨err | head, e₁⟩
    · simp [hr] at hf
    · simp only [hr, Option.some.injEq, Prod.mk.injEq] at hf
      obtain ⟨rfl, rfl⟩ := hf
      obtain ⟨hle, herror⟩ := ih hne hr hopen
      exact ⟨hle, fun w ↦ by rw [henter]; exact herror _⟩
    · simp only [hr] at hf
      rw [Recipe.follow_childrenOf_bind] at hf
      obtain ⟨-, hlt, hhead⟩ := ih hne hr hopen
      have hbelow : e₁.stack.below = (e.openFrame s).stack.below :=
        (Parser.beside_of_runConstructor hr).below_eq
      rcases hb : Parser.buildChildren p.grammar (p.runConstructor bound) bound
        (e₁.record (.children d.parent)) with _ | ⟨nodes, ending, e₂⟩
      · simp [hb] at hf
      · simp only [hb, Option.some.injEq, Prod.mk.injEq] at hf
        obtain ⟨rfl, rfl⟩ := hf
        have hdepth : (e₁.record (.children d.parent)).stack.below.length =
            e.stack.below.length + 1 := by
          rw [Session.stack_record, hbelow]
          rfl
        obtain ⟨hle, hfinish⟩ := comes_of_frame ha ih Parser.beside_of_runConstructor h.transition
          (Parser.built_of_buildChildren hb) hdepth
        rw [Session.taken_record] at hle
        have htaken : e.taken < e₂.taken := Nat.lt_of_lt_of_le hlt hle
        refine ⟨Nat.le_of_lt htaken, ?_⟩
        rcases ho : ending.outcome with err | _ <;> rw [ho] at hfinish
        · intro w
          rw [henter]
          exact (hhead _).trans (hfinish w el head.toList)
        · refine ⟨htaken, fun w ↦ ?_⟩
          rw [henter]
          exact (hhead _).trans (hfinish w el head.toList)

end Constructor

/-- Whatever runs of constructors do, the machine does. -/
theorem Describes.agrees_runConstructor (h : d.Describes p) (ha : a.Keeps d) {bound : Nat} {c : C}
    {s : Option S} {e e' : Session C F S Y} {outcome : Except ParseError (Option N)}
    (hne : ∀ e, d.shape c ≠ .root e) (hr : p.runConstructor bound c s e = some (outcome, e')) :
    d.Agrees a p.grammar c s e outcome e' := by
  induction bound generalizing c s e e' outcome with
  | zero => cases hr
  | succ bound ih =>
    obtain ⟨e₁, hf, rfl⟩ := Parser.exists_follow_of_runConstructor hr
    rw [h.recipe_eq] at hf
    rcases hshape : d.shape c with el | make | start | ⟨start, first, item, s'⟩ <;>
      rw [hshape] at hf
    · exact absurd hshape (hne el)
    · exact agrees_leaf hshape hf
    · exact agrees_container h ha ih hshape hf
    · exact agrees_series h ha ih hshape hf

/-- A parse builds the children of the root element and completes it. -/
theorem Describes.exists_built_of_run (h : d.Describes p) {el : E}
    (hroot : d.shape p.grammar.initialConstructor = .root el) {bound : Nat} {reader : Lookahead F}
    {outcome : Except ParseError N} {e' : Session C F S Y}
    (hr : p.run bound reader = some (outcome, e')) :
    ∃ nodes ending, Parser.Built p.grammar (p.runConstructor bound)
        ((Session.start reader p.grammar.initialState).record (.children d.parent)) nodes ending e' ∧
      outcome = ending.outcome.map fun _ ↦ d.finish (nodes.foldl d.append el) := by
  obtain ⟨outcome', hf, rfl⟩ := Parser.exists_follow_of_run hr
  rw [h.recipe_eq, hroot, Design.recipe, Recipe.follow_childrenOf_bind] at hf
  split at hf
  · cases hf
  · next nodes ending _ hb =>
    cases hf
    refine ⟨nodes, ending, Parser.built_of_buildChildren hb, ?_⟩
    cases ending <;> rfl

/-- **Parser and machine agree.** What a parse comes to, the machine comes to when it begins with
the root open. -/
theorem Describes.run_eq (h : d.Describes p) (ha : a.Keeps d) {el : E}
    (hroot : d.shape p.grammar.initialConstructor = .root el) {bound : Nat} {reader : Lookahead F}
    {outcome : Except ParseError N} {e' : Session C F S Y}
    (hr : p.run bound reader = some (outcome, e')) :
    d.run a p.grammar ⟨.root p.grammar.initialState, a.root el, reader.toList⟩ = outcome := by
  obtain ⟨nodes, ending, hbuilt, rfl⟩ := h.exists_built_of_run hroot hr
  obtain ⟨-, hcomes⟩ := comes_of_built (h.agrees_runConstructor ha)
    Parser.beside_of_runConstructor h.transition hbuilt
  have hdepth : e'.stack.below.length = 0 :=
    Nat.succ.inj (hbuilt.within Parser.beside_of_runConstructor).depth_eq
  have hleave : ∀ w, leave a e'.stack w e'.rest = .inr (.ok (a.result w)) := by
    intro w
    rw [leave, List.length_eq_zero_iff.1 hdepth]
  refine (hcomes (a.root el)).goOn_eq.trans ?_
  cases ending with
  | exhausted | stopped | redirected =>
    rw [conclude, hleave, goOn]
    exact congrArg Except.ok (ha.result_root el nodes)
  | failed | childFailed => rfl

end Design

end FragmentParser
