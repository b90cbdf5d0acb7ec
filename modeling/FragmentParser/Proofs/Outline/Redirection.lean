import FragmentParser.Proofs.Advance
import FragmentParser.Proofs.Moments
import FragmentParser.Proofs.Outline.Growth

/-!
# The chunk of a redirection

A subsection that meets `State A:` stops, puts the section around it into body state, and leaves the
chunk to it. So the chunk is recognized **a second time**, by the row of another state, and the two
rows do not agree: where the subsection has no entry for headers, the body's comes before the one
for the state chain. The chunk is still the next thing that the section gets, right behind the
subsection that was open, but it becomes the paragraph `state-a` only if it is no header
(`redirected_chunk_follows`); a header it is if it is longer than a hundred characters and no
sentence (`not_forall_redirected_is_state`).

The two recognitions are compared in `transition?_of_redirect`. Where the chunk gets is known from
the tree at that moment, which the machine has when the parser judges the chunk
(`Design.Describes.leads_of_reaches`).
-/

namespace FragmentParser.Outline

/-- At the position is an element of the kind. -/
def KindAt (t : Node) (p : List Nat) (kind : String) : Prop :=
  ∃ attributes, t.bareAt p = some (.element kind attributes [])

/-- Position `q'` is that of the next child after the subsection at `q`, in the section around it.
-/
def BehindSubsection (t : Node) (q q' : List Nat) : Prop :=
  ∃ p j, q = p ++ [j] ∧ q' = p ++ [j + 1] ∧ KindAt t p "section" ∧ KindAt t q "subsection"

/-- The paragraph that begins the state chain. -/
def chainStart (x : String) : Node :=
  flowElement ((Element.ofKind "paragraph").withAttribute "id" "state-a") x

/-- What a chunk that redirects becomes. -/
def redirectedNode (x : String) : Node :=
  if isHeader x then flowElement (Element.ofKind "header") x else chainStart x

variable {chunks : List String} {σ τ : StateStack State} {x : String} {xs : List String} {y : Symbol}
  {s : State} {t u : Node} {p : List Nat} {e : Element} {es : List Element} {ss : List State}
  {w : Pile Element}

/-! ### The two recognitions -/

/-- A chunk that redirects is read in body state as a header, if it is one, and otherwise as the
first paragraph of the chain. -/
theorem transition?_of_redirect (h : grammar.transition? σ x = some (y, .redirect s))
    (hτ : τ.top = .body) : grammar.transition? τ x =
      if isHeader x then some (.header, .child .header)
      else some (.stateA, .childIn .stateA .stateA) := by
  obtain ⟨hσ, rfl, hx⟩ : σ.top = .subsection ∧ s = .body ∧ beginsWith "State A:" x = true :=
    may_of_transition? h
  have hsection : σ.top ∈ sectionStates := by
    rw [hσ]
    decide
  have hbody : τ.top ∈ sectionStates := by
    rw [hτ]
    decide
  have hitem : itemClass? x = none := by
    rcases hk : itemClass? x with _ | k
    · rfl
    · rw [transition?_item_of_section hk hsection] at h
      cases h
  rw [transition?_plain hitem hsection, hσ] at h
  -- the entries that both rows have before the one for the chain
  obtain ⟨hheading, hpreformatted⟩ : isHeadingOf 1 x = false ∧ isPreformatted x = false := by
    cases h₁ : isHeadingOf 1 x <;> cases h₂ : isHeadingOf 2 x <;> cases h₃ : isHeadingOf 3 x <;>
      cases h₄ : isPreformatted x <;>
      simp_all [plainEntries, Rule.resolve, Transition.child, Transition.childIn]
  rw [transition?_plain hitem hbody, hτ]
  cases hheader : isHeader x <;>
    simp [plainEntries, Rule.resolve, hheading, hpreformatted, hheader, hx]

/-! ### Where the chunk gets -/

theorem KindAt.mono {kind : String} (h : KindAt t p kind) (hgrow : u.Has [] t) : KindAt u p kind :=
  h.imp fun _ hb ↦ hgrow p _ hb

theorem kindAt_of_edge {depth : Nat} (h : t.edge depth = some (p, e)) : KindAt t p e.kind :=
  ⟨e.attributes, Node.bareAt_of_get? (Node.get?_of_edge h).1⟩

theorem chunkPlaces_redirectedNode (x : String) : chunkPlaces (redirectedNode x) = [[]] := by
  rw [redirectedNode]
  split
  · exact Leaf.header.chunkPlaces
  · exact Leaf.stateA.chunkPlaces

/-- In body state the chunk is taken at once. -/
theorem exists_step_of_redirect (h : grammar.transition? σ x = some (y, .redirect s)) :
    ∃ s', design.step design.pile grammar ⟨⟨.body, ss⟩, ⟨e, es⟩, x :: xs⟩ =
      .inl ⟨⟨s', ss⟩, ⟨e.append (redirectedNode x), es⟩, xs⟩ := by
  have hbody : StateStack.top ⟨State.body, ss⟩ = .body := rfl
  have ht := transition?_of_redirect h hbody
  rw [redirectedNode]
  split
  · next hheader =>
    rw [if_pos hheader] at ht
    exact ⟨_, step_of_leaf ht rfl rfl rfl⟩
  · next hheader =>
    rw [if_neg hheader] at ht
    exact ⟨_, step_of_leaf ht rfl rfl rfl⟩

/-- From where a frame is redirected the machine gets to the end with the chunk behind that frame's
element. -/
theorem exists_behind (h : (CatalogEntry.outline.parse chunks).result = some (.ok t))
    (hleads : design.Leads design.pile grammar (beginning chunks) ⟨σ, w, x :: xs⟩)
    (ht : grammar.transition? σ x = some (y, .redirect s)) :
    ∃ q q', w.tree.edge σ.below.length = some (q, w.top) ∧ w.top.kind = "subsection" ∧
      BehindSubsection t q q' ∧ (chunkPlaces t)[(chunkPlaces w.tree).length]? = some q' ∧
      t.Has q' (redirectedNode x) := by
  obtain ⟨s₁, ss₁⟩ := σ
  obtain ⟨e, es₁⟩ := w
  obtain ⟨rfl, rfl, -⟩ : s₁ = .subsection ∧ s = .body ∧ beginsWith "State A:" x = true :=
    may_of_transition? ht
  obtain ⟨-, hstands⟩ := moves_of_leads (stands_beginning chunks) hleads
  have hframes := hstands.frames
  cases hframes with
  | root hfilled hkind =>
    have hroot : State.subsection ∈ rootStates := hfilled.mem_rootStates hkind
    exact absurd hroot (by decide)
  | @inner _ s' ss _ e' es hbelow hfilled hin =>
    obtain rfl := eq_section_of_innerKinds hfilled hin
    have hsub : e.kind = "subsection" := List.mem_singleton.1 hfilled.kind
    have hsec : e'.kind = "section" := List.mem_singleton.1 hbelow.filled.kind
    -- the frame is closed, and then the chunk is taken
    have hclose : design.step design.pile grammar
        ⟨⟨.subsection, .section :: ss⟩, ⟨e, e' :: es⟩, x :: xs⟩ =
          .inl ⟨⟨.body, ss⟩, ⟨e'.append e.toNode, es⟩, x :: xs⟩ := by
      simp only [Design.step, ht]
      rfl
    obtain ⟨s₂, htake⟩ := exists_step_of_redirect ht
    have hclosed := hleads.tail hclose
    have htaken := hclosed.tail htake
    obtain ⟨s₃, root, rfl, hend⟩ := exists_leads_of_result h htaken
    have hstands' := (moves_of_leads (stands_beginning chunks) hclosed).2
    obtain ⟨hfirst, hstands''⟩ := moves_of_leads hstands' (.single htake)
    have hmoves := (moves_of_leads hstands'' hend).1
    have hgrow : root.toNode.Has [] (⟨e'.append e.toNode, es⟩ : Pile Element).tree :=
      Moves.has (hfirst.trans hmoves)
    -- the section is on the edge before and after
    obtain ⟨p, hedge⟩ := Pile.exists_edge ⟨e', es⟩
    have hinner := Pile.edge_tree_cons hedge e
    have houter : (⟨e'.append e.toNode, es⟩ : Pile Element).tree.edge es.length =
        some (p, e'.append e.toNode) := by
      rw [Pile.tree_append]
      exact Node.edge_attach hedge e.toNode
    obtain ⟨hplace, hhas⟩ := Moves.place hmoves houter (Pile.tree_append _ es _)
      (chunkPlaces_redirectedNode x)
    have hlength : (e'.append e.toNode).children.length = e'.children.length + 1 :=
      List.length_append
    rw [hlength] at hplace hhas
    have hss : (State.section :: ss).length = es.length + 1 := hbelow.length_eq
    refine ⟨_, _, ?_, hsub, ⟨p, e'.children.length, rfl, rfl, ?_, ?_⟩, hplace, hhas⟩
    · rw [hss]
      exact hinner
    · exact (hsec ▸ kindAt_of_edge houter).mono hgrow
    · exact (hsub ▸ kindAt_of_edge hinner).mono hgrow

/-! ### Redirections in a parse -/

variable {n : Nat} {d : Session Maker String State Symbol}

/-- The machine gets to every redirection of a parse, with as many chunks taken. -/
theorem exists_leads_of_redirected (hreach : parser.Reaches (.ofList chunks) n .building d)
    (hredirect : (d.judge grammar).1 = .finish (.redirected s)) :
    ∃ x xs y w taken, d.rest = x :: xs ∧ grammar.transition? d.stack x = some (y, .redirect s) ∧
      design.Leads design.pile grammar (beginning chunks) ⟨d.stack, w, x :: xs⟩ ∧
      taken ++ x :: xs = chunks ∧ taken.length = d.taken := by
  have hroot : design.shape parser.grammar.initialConstructor = .root (Element.ofKind "body") := rfl
  obtain ⟨w, hleads⟩ := describes.leads_of_reaches design.pile_keeps hroot hreach
  rw [Lookahead.toList_ofList] at hleads
  obtain ⟨taken, hchunks, htaken⟩ := hreach.advances
  have hstart : (Session.start (.ofList chunks) parser.grammar.initialState :
      Session Maker String State Symbol).rest = chunks := Lookahead.toList_ofList chunks
  have hzero : (Session.start (.ofList chunks) parser.grammar.initialState :
      Session Maker String State Symbol).taken = 0 := rfl
  rw [hstart] at hchunks
  rw [hzero, Nat.zero_add] at htaken
  have hj := d.judged grammar
  rw [hredirect] at hj
  generalize (d.judge grammar).2 = d' at hj
  cases hj with
  | redirected hd ht =>
    rw [hd] at hleads hchunks
    exact ⟨_, _, _, w, taken, hd, ht, hleads, hchunks.symm, htaken.symm⟩

/-- A document with a redirection: the chunk `x` meets an open subsection. -/
theorem exists_redirected (hx : grammar.transition? ⟨.subsection, [.section, .body]⟩ x =
    some (y, .redirect s)) : ∃ d, parser.Reaches (.ofList ["1 One", "1.1 Sub", x]) 2 .building d ∧
      (d.judge grammar).1 = .finish (.redirected s) ∧ d.taken = 2 := by
  have hroot : design.shape parser.grammar.initialConstructor = .root (Element.ofKind "body") := rfl
  have hbody := describes.reaches_root hroot (.ofList ["1 One", "1.1 Sub", x])
  have hone : grammar.transition? (.root .body) "1 One" =
      some (.section, .childIn .section .section) := rfl
  obtain ⟨d₁, hsection, hrest₁, hstack₁, htaken₁⟩ :=
    describes.reaches_container hbody (Lookahead.toList_ofList _) hone rfl rfl
  have htwo : grammar.transition? d₁.stack "1.1 Sub" =
      some (.subsection, .childIn .subsection .subsection) := by
    rw [hstack₁]
    rfl
  obtain ⟨d₂, hsubsection, hrest₂, hstack₂, htaken₂⟩ :=
    describes.reaches_container hsection hrest₁ htwo rfl rfl
  have hstack : d₂.stack = ⟨.subsection, [.section, .body]⟩ := by
    rw [hstack₂, hstack₁]
    rfl
  have hcaller : d₂.stack.replaceCaller? s = some (.section, ⟨.subsection, [s, .body]⟩) := by
    rw [hstack]
    rfl
  have hjudged := Session.Judged.redirected hrest₂ (hstack ▸ hx) hcaller
  refine ⟨d₂, hsubsection, by rw [hjudged.judge_eq], ?_⟩
  rw [htaken₂, htaken₁]
  rfl

/-- **Where the chunk of a redirection gets.** When a frame of an outline parse that succeeds ends
by a redirection, then the frame is that of a subsection, which has been built as it is in the
document of the chunks before, and the chunk is one of the state chain. In the document this chunk
is the next child after the subsection, in the section around it: a header if it is one, and
otherwise the paragraph that begins the chain. -/
theorem redirected_chunk_follows (h : (CatalogEntry.outline.parse chunks).result = some (.ok t))
    (hreach : parser.Reaches (.ofList chunks) n .building d)
    (hredirect : (d.judge grammar).1 = .finish (.redirected s)) :
    ∃ x before q q' sub, chunks[d.taken]? = some x ∧ d.state = .subsection ∧ s = .body ∧
      beginsWith "State A:" x = true ∧
      (CatalogEntry.outline.parse (chunks.take d.taken)).result = some (.ok before) ∧
      before.edge n = some (q, sub) ∧ sub.kind = "subsection" ∧ BehindSubsection t q q' ∧
      (chunkPlaces t)[d.taken]? = some q' ∧ t.Has q' (redirectedNode x) := by
  obtain ⟨x, xs, y, w, taken, hrest, ht, hleads, hchunks, htaken⟩ :=
    exists_leads_of_redirected hreach hredirect
  obtain ⟨q, q', hedge, hsub, hbehind, hplace, hhas⟩ := exists_behind h hleads ht
  obtain ⟨taken', hchunks', hlength, hbefore⟩ := result_take hleads
  obtain rfl : taken' = taken := List.append_cancel_right (hchunks'.trans hchunks.symm)
  have hdepth : d.stack.below.length = n := Nat.succ.inj hreach.depth_eq
  obtain ⟨hstate, hs, hx⟩ : d.stack.top = .subsection ∧ s = .body ∧
      beginsWith "State A:" x = true := may_of_transition? ht
  rw [hlength, htaken] at hplace
  rw [hdepth] at hedge
  refine ⟨x, w.tree, q, q', w.top, ?_, hstate, hs, hx, ?_, hedge, hsub, hbehind, hplace, hhas⟩
  · rw [← htaken, ← hchunks, List.getElem?_append_right (Nat.le_refl _), Nat.sub_self]
    rfl
  · rw [← htaken, ← hchunks, List.take_left]
    exact hbefore

/-- The conditions of the theorem can be met. -/
theorem redirected_chunk_follows_subsection : ∃ t d,
    (CatalogEntry.outline.parse ["1 One", "1.1 Sub", "State A: go"]).result = some (.ok t) ∧
    parser.Reaches (.ofList ["1 One", "1.1 Sub", "State A: go"]) 2 .building d ∧
    (d.judge grammar).1 = .finish (.redirected .body) ∧
    ∃ x before q q' sub, ["1 One", "1.1 Sub", "State A: go"][d.taken]? = some x ∧
      d.state = .subsection ∧ State.body = .body ∧ beginsWith "State A:" x = true ∧
      (CatalogEntry.outline.parse
        (["1 One", "1.1 Sub", "State A: go"].take d.taken)).result = some (.ok before) ∧
      before.edge 2 = some (q, sub) ∧ sub.kind = "subsection" ∧ BehindSubsection t q q' ∧
      (chunkPlaces t)[d.taken]? = some q' ∧ t.Has q' (redirectedNode x) := by
  have hx : grammar.transition? ⟨.subsection, [.section, .body]⟩ "State A: go" =
      some (.stateA, .redirect .body) := rfl
  obtain ⟨d, hreach, hredirect, -⟩ := exists_redirected hx
  exact ⟨_, d, rfl, hreach, hredirect, redirected_chunk_follows rfl hreach hredirect⟩

/-- The chunk of a redirection need not begin the chain: it is a header if it is long enough. -/
theorem not_forall_redirected_is_state : ¬∀ chunks t n d s,
    (CatalogEntry.outline.parse chunks).result = some (.ok t) →
    parser.Reaches (.ofList chunks) n .building d → (d.judge grammar).1 = .finish (.redirected s) →
      ∃ x q, chunks[d.taken]? = some x ∧ (chunkPlaces t)[d.taken]? = some q ∧
        t.Has q (chainStart x) := by
  intro h
  let x := "State A: the first of three states, which takes a while to tell because " ++
    "the line goes on and on past a hundred characters"
  have hx : grammar.transition? ⟨.subsection, [.section, .body]⟩ x =
      some (.stateA, .redirect .body) := by decide +kernel
  obtain ⟨d, hreach, hredirect, htaken⟩ := exists_redirected hx
  have hresult : (CatalogEntry.outline.parse ["1 One", "1.1 Sub", x]).result = some (.ok
      (.element "body" .empty [.element "section"
        ((NameTable.empty.insert "ordinal" "1").insert "title" "One")
        [.element "subsection" ((NameTable.empty.insert "ordinal" "1.1").insert "title" "Sub") [],
          .element "header" .empty [.text x]]])) := by decide +kernel
  obtain ⟨x', q, -, hplace, hhas⟩ := h _ _ _ d _ hresult hreach hredirect
  rw [htaken] at hplace
  cases hplace
  have hkind : "header" = "paragraph" := (Node.element.inj (Option.some.inj (hhas [] _ rfl))).1
  exact absurd hkind (by decide)

end FragmentParser.Outline
