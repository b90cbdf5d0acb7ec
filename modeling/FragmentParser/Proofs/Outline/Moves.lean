import FragmentParser.Catalog
import FragmentParser.Proofs.Edge
import FragmentParser.Proofs.Outline.Design
import FragmentParser.Proofs.Termination

/-!
# Outline parses chunk by chunk

`grow σ t chunks` is what an outline parse comes to that has built the tree `t`, whose open elements
are in the states `σ`, and has these chunks to come. It is the machine of
`FragmentParser.Proofs.Machine` on trees that grow at their right edge, and the lemmas here are its
moves: how the head chunk closes a frame, or where it is attached.
-/

namespace FragmentParser.Outline

/-- What an outline parse comes to with the frames `σ` open on the tree `t`. -/
def grow (σ : StateStack State) (t : Node) (chunks : List String) : Except ParseError Node :=
  design.run Element.edge grammar ⟨σ, t, chunks⟩

/-- The catalog reports the outcome of the run. -/
theorem result_of_run {chunks : List String} {outcome : Except ParseError Node}
    {d : Session Maker String State Symbol}
    (h : parser.run (chunkBound chunks) (.ofList chunks) = some (outcome, d)) :
    (CatalogEntry.outline.parse chunks).result = some outcome := by
  show (parser.report (chunkBound chunks) chunks).result = _
  rw [Parser.report, h]

/-- A parse comes to what the machine comes to, whatever the open elements are kept on. -/
theorem result_eq_run {W : Type} {a : Assembly Element Node W} (ha : a.Keeps design)
    (chunks : List String) : (CatalogEntry.outline.parse chunks).result =
      some (design.run a grammar ⟨.root .body, a.root (Element.ofKind "body"), chunks⟩) := by
  obtain ⟨outcome, d, hrun⟩ := describes.exists_run chunks
  have h := hrun _ (Nat.le_refl _)
  have hroot : design.shape parser.grammar.initialConstructor = .root (Element.ofKind "body") := rfl
  have hmachine := describes.run_eq ha hroot h
  rw [Lookahead.toList_ofList] at hmachine
  rw [result_of_run h]
  exact congrArg some hmachine.symm

/-- A parse grows the tree from an empty body. -/
theorem result_outline (chunks : List String) : (CatalogEntry.outline.parse chunks).result =
    some (grow (.root .body) (Element.ofKind "body").toNode chunks) :=
  result_eq_run (Element.edge_keeps _ _) chunks

/-! ### The moves -/

variable {σ : StateStack State} {t : Node} {x : String} {xs : List String} {y : Symbol}

/-- At the end the tree is complete. -/
theorem grow_nil (σ : StateStack State) (t : Node) : grow σ t [] = .ok t := by
  obtain ⟨top, below⟩ := σ
  induction below generalizing top with
  | nil => rw [grow, Design.run_eq]; rfl
  | cons s below ih =>
    rw [grow, Design.run_eq]
    exact ih s

/-- A chunk that no applicable recognizer accepts ends the parse. -/
theorem grow_of_none (h : grammar.transition? σ x = none) : grow σ t (x :: xs) =
    .error (.noRecognizerMatch (fragmentText x) σ.top.name ((grammar.applicable σ.top).map text)) := by
  rw [grow, Design.run_eq]
  simp only [Design.step, h]
  rfl

/-- A chunk that stops a frame is left to the enclosing one. -/
theorem grow_of_stop {s : State} (h : grammar.transition? (σ.push s) x = some (y, .stop)) :
    grow (σ.push s) t (x :: xs) = grow σ t (x :: xs) := by
  rw [grow, Design.run_eq]
  simp only [Design.step, h]
  rfl

/-- A redirected frame is left with the chunk as well. -/
theorem grow_of_redirect {s s' : State}
    (h : grammar.transition? (σ.push s) x = some (y, .redirect s')) :
    grow (σ.push s) t (x :: xs) = grow (σ.replaceTop s') t (x :: xs) := by
  rw [grow, Design.run_eq]
  simp only [Design.step, h]
  rfl

/-- A leaf is attached to the innermost open element. -/
theorem grow_of_leaf {c : Maker} {s : Option State} {make : String → Option Node} {n : Node}
    (h : grammar.transition? σ x = some (y, .construct c s)) (hshape : shape c = .leaf make)
    (hn : make x = some n) : grow σ t (x :: xs) =
      grow (σ.share (Constructor.frame c) s) (Node.attach σ.below.length n t) xs := by
  rw [grow, Design.run_eq]
  have hshape' : design.shape c = .leaf make := hshape
  simp only [Design.step, h, Design.enter, hshape', hn, StateStack.below_share]
  rfl

/-- A container is attached to the innermost open element and open from then on. -/
theorem grow_of_container {c : Maker} {s : State} {start : String → Element}
    (h : grammar.transition? σ x = some (y, .construct c (some s)))
    (hshape : shape c = .container start) (hframe : Maker.frame c = .own) : grow σ t (x :: xs) =
      grow (σ.push s) (Node.attach σ.below.length (start x).toNode t) xs := by
  rw [grow, Design.run_eq]
  have hshape' : design.shape c = .container start := hshape
  simp only [Design.step, h, Design.enter, hshape', show Constructor.frame c = .own from hframe]
  rfl

/-- A list is attached to the innermost open element with its first item, and both are open from
then on. -/
theorem grow_of_list {k : ListClass} {e : Element}
    (h : grammar.transition? σ x = some (y, .childIn (listOf k).2 (listOf k).1))
    (he : listElement (some x) = .ok e) : grow σ t (x :: xs) =
      grow ((σ.push (listOf k).1).push .listItem)
        (Node.attach σ.below.length (e.append (itemElement x).toNode).toNode t) xs := by
  have hshape : design.shape (listOf k).2 =
      .series listElement .listItem itemElement (some .listItem) := by
    cases k <;> rfl
  have hframe : Constructor.frame (listOf k).2 = .own := by
    cases k <;> rfl
  have hattach : Element.edge.openIn (σ.below.length + 1) (itemElement x)
      (Element.edge.openIn σ.below.length e t) =
        Node.attach σ.below.length (e.append (itemElement x).toNode).toNode t :=
    Node.attach_attach σ.below.length 0 _ _ t
  rw [grow, Design.run_eq]
  simp only [Design.step, h, Transition.childIn, Design.enter, hshape, he, hframe,
    StateStack.share, hattach]
  rfl

end FragmentParser.Outline
