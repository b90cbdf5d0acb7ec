import FragmentParser.Proofs.Iteration
import FragmentParser.Proofs.Shape

/-!
# Where errors come from

An error of a parse is made by the parse itself (`ParseError.OfParse`) or by a constructor, and a
constructor that was handed an error may end with it, with another one or with none. So of a kind
that the parse does not make, a parse can end with an error only if a constructor makes one
(`Parser.not_of_run`). A **missing rule** is of such a kind, since what is recognized has a rule.

Constructors of this library pass errors on and look at no grammar (`Recipe.PassesOn`); the errors
that they make themselves are about the input that has ended, or their own
(`ParseError.OfConstructor`).
-/

namespace FragmentParser

variable {C F S Y E N : Type}

namespace ParseError

/-- The error is one of those that a parse makes by itself. -/
def OfParse : ParseError → Prop
  | .noRecognizerMatch .. | .noAncestor .. | .stalled .. | .emptyRoot .. => True
  | .noTransition .. | .endOfInput .. | .construct .. => False

/-- The error is one of those that constructors make. -/
def OfConstructor : ParseError → Prop
  | .endOfInput .. | .construct .. => True
  | .noRecognizerMatch .. | .noTransition .. | .noAncestor .. | .stalled .. | .emptyRoot .. => False

/-- The error is that a rule is missing. -/
def IsMissingRule : ParseError → Prop
  | .noTransition .. => True
  | _ => False

theorem OfParse.not_isMissingRule {e : ParseError} (h : e.OfParse) : ¬e.IsMissingRule := by
  cases e <;> first | exact id | exact absurd h id

theorem OfConstructor.not_isMissingRule {e : ParseError} (h : e.OfConstructor) : ¬e.IsMissingRule := by
  cases e <;> first | exact id | exact absurd h id

end ParseError

namespace Recipe

variable {α β : Type}

/-! ### Recipes -/

/-- The recipe ends with an error of the kind only if it was handed one. -/
def DoesNotMake (kind : ParseError → Prop) : Recipe C F S Y N α → Prop
  | .done outcome => ∀ e, outcome = .error e → ¬kind e
  | .peek k => ∀ x, (k x).DoesNotMake kind
  | .take k => ∀ x, (k x).DoesNotMake kind
  | .inspect k => ∀ σ v, (k σ v).DoesNotMake kind
  | .children _ k => ∀ nodes outcome, (∀ e, outcome = .error e → ¬kind e) →
      (k nodes outcome).DoesNotMake kind
  | .child _ _ k => ∀ outcome, (∀ e, outcome = .error e → ¬kind e) → (k outcome).DoesNotMake kind

/-- The recipe passes errors on, makes only errors of constructors, and does not look at the
grammar. -/
def PassesOn : Recipe C F S Y N α → Prop
  | .done outcome => ∀ e, outcome = .error e → e.OfConstructor
  | .peek k => ∀ x, (k x).PassesOn
  | .take k => ∀ x, (k x).PassesOn
  | .inspect k => (∀ σ v v', k σ v = k σ v') ∧ ∀ σ v, (k σ v).PassesOn
  | .children _ k =>
    (∀ nodes e, k nodes (.error e) = .done (.error e)) ∧ ∀ nodes, (k nodes (.ok ())).PassesOn
  | .child _ _ k => (∀ e, k (.error e) = .done (.error e)) ∧ ∀ node, (k (.ok node)).PassesOn

theorem passesOn_bind {r : Recipe C F S Y N α} {f : α → Recipe C F S Y N β} (hr : r.PassesOn)
    (hf : ∀ a, (f a).PassesOn) : (r >>= f).PassesOn := by
  show (r.bind f).PassesOn
  induction r with
  | done outcome =>
    rcases outcome with e | a
    · intro e' he'
      cases he'
      exact hr e rfl
    · exact hf a
  | peek k ih => exact fun x ↦ ih x (hr x)
  | take k ih => exact fun x ↦ ih x (hr x)
  | inspect k ih =>
    refine ⟨fun σ v v' ↦ ?_, fun σ v ↦ ih σ v (hr.2 σ v)⟩
    show (k σ v).bind f = (k σ v').bind f
    rw [hr.1 σ v v']
  | children parent k ih =>
    refine ⟨fun nodes e ↦ ?_, fun nodes ↦ ih nodes _ (hr.2 nodes)⟩
    show (k nodes (.error e)).bind f = .done (.error e)
    rw [hr.1 nodes e, bind]
  | child c s k ih =>
    refine ⟨fun e ↦ ?_, fun node ↦ ih _ (hr.2 node)⟩
    show (k (.error e)).bind f = .done (.error e)
    rw [hr.1 e, bind]

theorem passesOn_pure (a : α) : (pure a : Recipe C F S Y N α).PassesOn := by
  intro e he
  cases he

theorem passesOn_look : (look : Recipe C F S Y N (Option F)).PassesOn := fun x ↦ passesOn_pure x

theorem passesOn_next [Diagnostic S] : (next : Recipe C F S Y N F).PassesOn := by
  rintro (_ | x)
  · refine ⟨fun _ _ _ ↦ rfl, fun σ v e he ↦ ?_⟩
    cases he
    trivial
  · exact passesOn_pure x

theorem passesOn_childrenOf (parent : String) :
    (childrenOf parent : Recipe C F S Y N (List N)).PassesOn :=
  ⟨fun _ _ ↦ rfl, fun nodes ↦ passesOn_pure nodes⟩

theorem passesOn_childOf (c : C) (s : Option S) :
    (childOf c s : Recipe C F S Y N (Option N)).PassesOn :=
  ⟨fun _ ↦ rfl, fun node ↦ passesOn_pure node⟩

/-- What makes no errors but those of constructors makes none of another kind. -/
theorem PassesOn.doesNotMake {kind : ParseError → Prop} (hkind : ∀ e, e.OfConstructor → ¬kind e)
    {r : Recipe C F S Y N α} (hr : r.PassesOn) : r.DoesNotMake kind := by
  induction r with
  | done outcome => exact fun e he ↦ hkind e (hr e he)
  | peek k ih => exact fun x ↦ ih x (hr x)
  | take k ih => exact fun x ↦ ih x (hr x)
  | inspect k ih => exact fun σ v ↦ ih σ v (hr.2 σ v)
  | children parent k ih =>
    rintro nodes (e | _) ho
    · rw [hr.1 nodes e]
      exact fun e' he' ↦ ho e' (by cases he'; rfl)
    · exact ih nodes _ (hr.2 nodes)
  | child c s k ih =>
    rintro (e | node) ho
    · rw [hr.1 e]
      exact fun e' he' ↦ ho e' (by cases he'; rfl)
    · exact ih _ (hr.2 node)

/-- A recipe that makes no error of the kind ends with none, if it is handed none. -/
theorem DoesNotMake.not_of_follow [DecidableEq S] [DecidableEq Y] {kind : ParseError → Prop}
    {g : Grammar C F S Y} {build : Session C F S Y → Harvest C F S Y N}
    {run : C → Option S → Session C F S Y → Reply C F S Y (Option N)}
    (hbuild : ∀ {d nodes ending d' e}, build d = some (nodes, ending, d') →
      ending.outcome = .error e → ¬kind e)
    (hrun : ∀ {c s d d' e}, run c s d = some (.error e, d') → ¬kind e)
    {r : Recipe C F S Y N α} (hr : r.DoesNotMake kind) {d d' : Session C F S Y} {e : ParseError}
    (h : r.follow g build run d = some (.error e, d')) : ¬kind e := by
  induction r generalizing d with
  | done outcome =>
    cases h
    exact hr e rfl
  | peek k ih => exact ih _ (hr _) h
  | take k ih => exact ih _ (hr _) h
  | inspect k ih => exact ih _ _ (hr _ _) h
  | children parent k ih =>
    rw [follow] at h
    split at h
    · cases h
    · next hb => exact ih _ _ (hr _ _ fun e ho ↦ hbuild hb ho) h
  | child c s k ih =>
    rw [follow] at h
    split at h
    · cases h
    · next outcome d₁ hc =>
      refine ih _ (hr _ ?_) h
      rintro e₁ rfl
      exact hrun hc

end Recipe

/-! ### Parses -/

namespace Parser

variable [DecidableEq S] [DecidableEq Y] [Constructor C] [Diagnostic F] [Diagnostic S]
  [Diagnostic Y] {p : Parser C F S Y N} {kind : ParseError → Prop} {bound : Nat}
  {d d' : Session C F S Y} {e : ParseError}

/-- The errors of building children are those of a parse, and those of the constructors that are
run. -/
theorem Built.not_of_outcome {g : Grammar C F S Y}
    {run : C → Option S → Session C F S Y → Reply C F S Y (Option N)}
    (hkind : ∀ e, e.OfParse → ¬kind e)
    (hrun : ∀ {c s d d' e}, run c s d = some (.error e, d') → ¬kind e) {nodes : List N}
    {ending : Ending S} (h : Built g run d nodes ending d') (ho : ending.outcome = .error e) :
    ¬kind e := by
  induction h with
  | finish hj =>
    cases hj with
    | exhausted | stopped | redirected => cases ho
    | unmatched | orphaned =>
      cases ho
      exact hkind _ trivial
  | childFailed _ hr =>
    cases ho
    exact hrun hr
  | stalled =>
    cases ho
    exact hkind _ trivial
  | next _ _ _ _ ih => exact ih ho

theorem not_of_runConstructor (hkind : ∀ e, e.OfParse → ¬kind e)
    (hp : ∀ c, (p.recipe c).DoesNotMake kind) {c : C} {s : Option S}
    (h : p.runConstructor bound c s d = some (.error e, d')) : ¬kind e := by
  induction bound generalizing c s d d' e with
  | zero => cases h
  | succ bound ih =>
    obtain ⟨d₁, hf, -⟩ := exists_follow_of_runConstructor h
    exact (hp c).not_of_follow (fun hb ↦ (built_of_buildChildren hb).not_of_outcome hkind ih) ih hf

/-- **A parse ends with no error of a kind that neither it nor its constructors make.** -/
theorem not_of_run (hkind : ∀ e, e.OfParse → ¬kind e) (hp : ∀ c, (p.recipe c).DoesNotMake kind)
    {reader : Lookahead F} (h : p.run bound reader = some (.error e, d)) : ¬kind e := by
  obtain ⟨outcome, hf, ho⟩ := exists_follow_of_run h
  rcases outcome with e' | _ | node
  · cases ho
    exact (hp _).not_of_follow
      (fun hb ↦ (built_of_buildChildren hb).not_of_outcome hkind (not_of_runConstructor hkind hp))
      (not_of_runConstructor hkind hp) hf
  · cases ho
    exact hkind _ trivial
  · cases ho

end Parser

namespace Design

variable [Diagnostic S] [DecidableEq S] [DecidableEq Y] {d : Design C F S E N} {p : Parser C F S Y N}

/-- Constructors with shapes pass errors on, if the errors they make are those of constructors. -/
theorem Describes.passesOn (h : d.Describes p)
    (hstart : ∀ {c start first item s x e}, d.shape c = .series start first item s →
      start x = .error e → e.OfConstructor) (c : C) : (p.recipe c).PassesOn := by
  rw [h.recipe_eq]
  rcases hshape : d.shape c with e | make | start | ⟨start, first, item, s⟩
  · exact Recipe.passesOn_bind (Recipe.passesOn_childrenOf _) fun _ ↦ Recipe.passesOn_pure _
  · exact Recipe.passesOn_bind Recipe.passesOn_next fun _ ↦ Recipe.passesOn_pure _
  · refine Recipe.passesOn_bind Recipe.passesOn_next fun _ ↦ ?_
    exact Recipe.passesOn_bind (Recipe.passesOn_childrenOf _) fun _ ↦ Recipe.passesOn_pure _
  · refine Recipe.passesOn_bind Recipe.passesOn_look fun x ↦ ?_
    refine Recipe.passesOn_bind (fun _ ↦ hstart hshape) fun _ ↦ ?_
    refine Recipe.passesOn_bind (Recipe.passesOn_childOf _ _) fun _ ↦ ?_
    exact Recipe.passesOn_bind (Recipe.passesOn_childrenOf _) fun _ ↦ Recipe.passesOn_pure _

end Design

end FragmentParser
