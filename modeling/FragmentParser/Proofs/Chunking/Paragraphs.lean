import FragmentParser.Chunking.Basic
import FragmentParser.Proofs.Chunking.Normal
import FragmentParser.Proofs.Text.Pieces

/-!
# Paragraphs are the runs of lines between blank lines

A text is cut into paragraphs by a loop that keeps the run of lines with which a paragraph has
begun, and ends the paragraph at a blank line and at the end of the text. What comes out are the
**maximal runs** of lines that are not blank (`Runs`), of which every list has one sequence only
(`Runs.unique`).

Hence the two directions of `paragraphs_determined`: every text gives paragraphs, which between them
have all its lines that are not blank, in order; and paragraphs are given back by every text in
which they stand with blank lines between them, whatever those blank lines are.
-/

namespace FragmentParser.Chunking

open Text

/-! ### Maximal runs -/

section Runs

variable {α : Type} {p : α → Prop} {xs : List α} {rs rs' : List (List α)}

/-- The maximal runs of items with `p` that follow each other directly in a list. -/
inductive Runs (p : α → Prop) : List α → List (List α) → Prop where
  /-- There is no item with `p`. -/
  | gap {gap : List α} : (∀ x ∈ gap, ¬p x) → Runs p gap []
  /-- The first run stands behind a gap, and in front of another one or at the end. -/
  | run {gap run rest : List α} {runs : List (List α)} : (∀ x ∈ gap, ¬p x) → run ≠ [] →
      (∀ x ∈ run, p x) → (∀ x ∈ rest.head?, ¬p x) → Runs p rest runs →
      Runs p (gap ++ run ++ rest) (run :: runs)

/-- More items without `p` in front make no difference. -/
theorem Runs.append {gap : List α} (hgap : ∀ x ∈ gap, ¬p x) (h : Runs p xs rs) :
    Runs p (gap ++ xs) rs := by
  cases h with
  | gap hxs => exact .gap (List.forall_mem_append.2 ⟨hgap, hxs⟩)
  | run hxs hne hrun hrest h =>
    rw [List.append_assoc, ← List.append_assoc, ← List.append_assoc]
    exact .run (List.forall_mem_append.2 ⟨hgap, hxs⟩) hne hrun hrest h

/-- A list may begin with a run. -/
theorem Runs.begin {run rest : List α} (hne : run ≠ []) (hrun : ∀ x ∈ run, p x)
    (hrest : ∀ x ∈ rest.head?, ¬p x) (h : Runs p rest rs) : Runs p (run ++ rest) (run :: rs) := by
  have hgap : ∀ x ∈ ([] : List α), ¬p x := List.forall_mem_nil _
  exact .run hgap hne hrun hrest h

/-- No item of a run is lost, repeated or moved. -/
theorem Runs.flatten_eq [DecidablePred p] (h : Runs p xs rs) : rs.flatten = xs.filter (p ·) := by
  have hnone : ∀ {gap : List α}, (∀ x ∈ gap, ¬p x) → gap.filter (p ·) = [] := fun hgap ↦
    List.filter_eq_nil_iff.2 fun x hx ↦ by simpa using hgap x hx
  induction h with
  | gap hgap => rw [hnone hgap, List.flatten_nil]
  | @run gap run rest runs hgap _ hrun _ _ ih =>
    have hall : run.filter (p ·) = run := List.filter_eq_self.2 fun x hx ↦ by simpa using hrun x hx
    rw [List.flatten_cons, ih, List.filter_append, List.filter_append, hnone hgap, hall,
      List.nil_append]

theorem Runs.of_mem (h : Runs p xs rs) {run : List α} (hrun : run ∈ rs) :
    run ≠ [] ∧ run ⊆ xs ∧ ∀ x ∈ run, p x := by
  induction h with
  | gap => cases hrun
  | run hgap hne hall _ _ ih =>
    rcases List.mem_cons.1 hrun with rfl | hrun
    · exact ⟨hne, fun x hx ↦ List.mem_append_left _ (List.mem_append_right _ hx), hall⟩
    · obtain ⟨hne', hsubset, hall'⟩ := ih hrun
      exact ⟨hne', fun x hx ↦ List.mem_append_right _ (hsubset hx), hall'⟩

/-- The maximal runs are determined. -/
theorem Runs.unique (h : Runs p xs rs) (h' : Runs p xs rs') : rs = rs' := by
  -- a list without items with `p` has no run
  have hnone : ∀ {gap run rest : List α}, (∀ x ∈ gap ++ run ++ rest, ¬p x) → (∀ x ∈ run, p x) →
      run = [] := fun hgap hrun ↦ List.eq_nil_iff_forall_not_mem.2 fun x hx ↦
    hgap x (List.mem_append_left _ (List.mem_append_right _ hx)) (hrun x hx)
  have hhead : ∀ {run rest : List α}, run ≠ [] → (∀ x ∈ run, p x) →
      ∀ x ∈ (run ++ rest).head?, ¬¬p x := by
    intro run rest hne hrun x hx
    rw [List.head?_append, List.head?_eq_some_head hne] at hx
    obtain rfl := Option.some.inj hx
    exact not_not_intro (hrun _ (List.head_mem hne))
  induction h generalizing rs' with
  | gap hgap =>
    cases h' with
    | gap => rfl
    | run _ hne hrun => exact absurd (hnone hgap hrun) hne
  | @run gap run rest runs hgap hne hrun hrest _ ih =>
    generalize hxs : gap ++ run ++ rest = xs at h'
    cases h' with
    | gap hgap' => exact absurd (hnone (hxs ▸ hgap') hrun) hne
    | @run gap' run' rest' runs' hgap' hne' hrun' hrest' h' =>
      rw [List.append_assoc, List.append_assoc] at hxs
      obtain ⟨-, hxs⟩ := append_inj_of_boundary hgap hgap' (hhead hne hrun) (hhead hne' hrun') hxs
      obtain ⟨rfl, rfl⟩ := append_inj_of_boundary hrun hrun' hrest hrest' hxs
      rw [ih h']

end Runs

/-! ### The loop -/

/-- The line has a character that is not blank. -/
abbrev Written (l : List Char) : Prop := allBlank l = false

/-- Behind a run of lines the loop gathers the maximal runs of the run and the lines together. -/
theorem exists_runs_gatherParagraphs (run : List (List Char)) (hrun : ∀ l ∈ run, Written l)
    (ls : List (List Char)) : ∃ runs, Runs Written (run ++ ls) runs ∧
      gatherParagraphs run ls = runs.map joinLines := by
  induction ls generalizing run with
  | nil =>
    rw [gatherParagraphs, endParagraph]
    split
    · next hempty =>
      rw [List.isEmpty_iff.1 hempty]
      exact ⟨[], .gap (by simp), rfl⟩
    · next hne =>
      exact ⟨[run], .begin (by simpa using hne) hrun (by simp) (.gap (by simp)), rfl⟩
  | cons l ls ih =>
    rw [gatherParagraphs]
    split
    · next hl =>
      -- a blank line ends the run, if there is one, and belongs to the gap behind it
      have hblank : ¬Written l := by simpa using hl
      obtain ⟨runs, hruns, heq⟩ := ih [] (by simp)
      have hgap : Runs Written (l :: ls) runs := hruns.append (List.forall_mem_singleton.2 hblank)
      rw [endParagraph, heq]
      split
      · next hempty =>
        rw [List.isEmpty_iff.1 hempty]
        exact ⟨runs, hgap, rfl⟩
      · next hne =>
        exact ⟨run :: runs, .begin (by simpa using hne) hrun (by simpa using hl) hgap, rfl⟩
    · next hl =>
      have hl : Written l := by simpa using hl
      obtain ⟨runs, hruns, heq⟩ :=
        ih (run ++ [l]) (List.forall_mem_append.2 ⟨hrun, List.forall_mem_singleton.2 hl⟩)
      rw [List.append_assoc, List.singleton_append] at hruns
      exact ⟨runs, hruns, heq⟩

/-- The lines of a text in normal form. -/
def normalLines (s : String) : List (List Char) := lines (normalize s).toList

/-- The paragraphs of a text are its maximal runs of lines that are not blank. -/
theorem chunk_paragraph_eq {s : String} {runs : List (List (List Char))}
    (h : Runs Written (normalLines s) runs) :
    chunk .paragraph s = runs.map fun run ↦ String.ofList (joinLines run) := by
  obtain ⟨runs', hruns, heq⟩ := exists_runs_gatherParagraphs [] (by simp) (normalLines s)
  rw [List.nil_append] at hruns
  obtain rfl := h.unique hruns
  rw [normalLines, normalize, String.toList_ofList] at heq
  simp only [chunk, paragraphChars, heq, List.map_map, Function.comp_def]

/-! ### Paragraphs and blank lines -/

/-- The text can be a paragraph: its lines are not blank, and it has no tabs and no carriage
returns. -/
def IsParagraph (c : String) : Prop :=
  ∀ l ∈ c.toList.splitOn '\n', Written l ∧ '\t' ∉ l ∧ '\r' ∉ l

instance : DecidablePred IsParagraph := fun c ↦
  inferInstanceAs (Decidable (∀ l ∈ c.toList.splitOn '\n', Written l ∧ '\t' ∉ l ∧ '\r' ∉ l))

/-- The text is the chunks with blank lines between each two of them. Between the line end of a
chunk and the next chunk stands blank text with a line end: one blank line or, as the blank text may
have line feeds of its own, several. -/
inductive Spaced : List String → String → Prop where
  /-- There are no chunks. -/
  | none : Spaced [] ""
  /-- The last chunk. -/
  | last (c : String) : Spaced [c] c
  /-- A chunk and blank lines in front of others. -/
  | more {c gap text : String} {chunks : List String} : allBlank gap.toList = true → chunks ≠ [] →
      Spaced chunks text → Spaced (c :: chunks) (c ++ "\n" ++ gap ++ "\n" ++ text)

theorem IsParagraph.notMem {c : String} (h : IsParagraph c) :
    '\t' ∉ c.toList ∧ '\r' ∉ c.toList := by
  have hmem : ∀ {d : Char}, d ≠ '\n' → d ∈ c.toList → ∃ l ∈ c.toList.splitOn '\n', d ∈ l := by
    intro d hd hmem
    rw [← @List.intercalate_splitOn _ c.toList _ _ '\n'] at hmem
    exact (mem_of_mem_intercalate hmem).resolve_right hd
  refine ⟨fun htab ↦ ?_, fun hreturn ↦ ?_⟩
  · obtain ⟨l, hl, hmem⟩ := hmem (by decide) htab
    exact (h l hl).2.1 hmem
  · obtain ⟨l, hl, hmem⟩ := hmem (by decide) hreturn
    exact (h l hl).2.2 hmem

theorem Written.ne_nil {l : List Char} (h : Written l) : l ≠ [] := by
  rintro rfl
  cases h

/-- The lines of blank text are blank. -/
theorem exists_lines_blank {gap : List Char} (h : allBlank gap = true) :
    ∃ ls : List (List Char), ls ≠ [] ∧ (∀ l ∈ ls, ¬Written l) ∧ ∀ cs,
      lines (normalChars (gap ++ '\n' :: cs)) = ls ++ lines (normalChars cs) := by
  obtain ⟨line, hline⟩ := exists_normalChars_append_cons gap
  have hmem : ∀ c ∈ line, c ≠ '\r' ∧ isBlank c = true := by
    intro c hc
    have hnormal : c ∈ normalChars (gap ++ '\n' :: []) := hline [] ▸ List.mem_append_left _ hc
    obtain ⟨-, hreturn, hgap | rfl | rfl⟩ := mem_normalChars hnormal
    · rcases List.mem_append.1 hgap with hgap | hfeed
      · exact ⟨hreturn, List.all_eq_true.1 h c hgap⟩
      · rw [List.mem_singleton.1 hfeed]
        decide
    · decide
    · decide
  refine ⟨line.splitOn '\n', List.splitOn_ne_nil _ _, fun l hl hwritten ↦ ?_, fun cs ↦ ?_⟩
  · have hblank : allBlank l = true :=
      List.all_eq_true.2 fun c hc ↦ (hmem c (mem_of_mem_splitOn hl hc)).2
    rw [Written, hblank] at hwritten
    cases hwritten
  · rw [hline, lines_append_cons fun hreturn ↦ (hmem _ hreturn).1 rfl]

/-- In a text of paragraphs with blank lines between them, these are its runs of lines. -/
theorem Spaced.runs {chunks : List String} {text : String} (h : Spaced chunks text)
    (hchunks : ∀ c ∈ chunks, IsParagraph c) :
    Runs Written (normalLines text) (chunks.map fun c ↦ c.toList.splitOn '\n') := by
  induction h with
  | none => exact .gap (by decide)
  | last c =>
    have hc := hchunks c (List.mem_singleton_self c)
    have hlines : normalLines c = c.toList.splitOn '\n' ++ [] := by
      rw [normalLines, normalize, String.toList_ofList, normalChars_of_plain hc.notMem.1 hc.notMem.2,
        lines_eq_splitOn hc.notMem.2 fun l hl ↦ (hc l (List.mem_of_getLast? hl)).1.ne_nil,
        List.append_nil]
    rw [hlines]
    exact .begin (List.splitOn_ne_nil _ _) (fun l hl ↦ (hc l hl).1) (by simp) (.gap (by simp))
  | @more c gap text chunks hgap _ _ ih =>
    have hc := hchunks c List.mem_cons_self
    obtain ⟨ls, hne, hls, heq⟩ := exists_lines_blank hgap
    have hlines : normalLines (c ++ "\n" ++ gap ++ "\n" ++ text) =
        c.toList.splitOn '\n' ++ (ls ++ normalLines text) := by
      have htext : (c ++ "\n" ++ gap ++ "\n" ++ text).toList =
          c.toList ++ '\n' :: (gap.toList ++ '\n' :: text.toList) := by
        simp
      rw [normalLines, normalLines, normalize, normalize, String.toList_ofList, String.toList_ofList,
        htext, normalChars_append_cons hc.notMem.1 hc.notMem.2, lines_append_cons hc.notMem.2, heq]
    rw [hlines, List.map_cons]
    refine .begin (List.splitOn_ne_nil _ _) (fun l hl ↦ (hc l hl).1) (fun l hl ↦ ?_)
      ((ih fun c' hc' ↦ hchunks c' (List.mem_cons_of_mem c hc')).append hls)
    rw [List.head?_append, List.head?_eq_some_head hne] at hl
    obtain rfl := Option.some.inj hl
    exact hls _ (List.head_mem hne)

/-- What the loop joins from a run of lines of a text is a paragraph. -/
theorem isParagraph_joinLines {s : String} {run : List (List Char)} (hne : run ≠ [])
    (hsubset : run ⊆ normalLines s) (hrun : ∀ l ∈ run, Written l) :
    IsParagraph (String.ofList (joinLines run)) := by
  intro l hl
  rw [String.toList_ofList, joinLines,
    List.splitOn_intercalate '\n' (fun l hl ↦ notMem_of_mem_lines (hsubset hl)) hne] at hl
  have hmem : ∀ c ∈ l, c ≠ '\t' ∧ c ≠ '\r' := by
    intro c hc
    have hnormal := mem_of_mem_lines (hsubset hl) hc
    rw [normalize, String.toList_ofList] at hnormal
    exact ⟨(mem_normalChars hnormal).1, (mem_normalChars hnormal).2.1⟩
  exact ⟨hrun l hl, fun h ↦ (hmem _ h).1 rfl, fun h ↦ (hmem _ h).2 rfl⟩

/-- **Paragraphs are determined by the lines, and determine them but for the blank ones.** The
paragraphs of a text are the maximal runs of lines of its normal form that are not blank, each
joined by line feeds. So between them they have all these lines, once and in order, and each of them
can be a paragraph. And every list of texts that can be paragraphs is given back by all texts in
which they stand with blank lines between them. -/
theorem paragraphs_determined :
    (∀ s, ∃ runs, (∀ runs', Runs Written (normalLines s) runs' ↔ runs' = runs) ∧
      chunk .paragraph s = runs.map (fun run ↦ String.ofList (joinLines run)) ∧
      runs.flatten = (normalLines s).filter (Written ·) ∧
      ∀ c ∈ chunk .paragraph s, IsParagraph c) ∧
    ∀ chunks text, (∀ c ∈ chunks, IsParagraph c) → Spaced chunks text →
      chunk .paragraph text = chunks := by
  refine ⟨fun s ↦ ?_, fun chunks text hchunks hspaced ↦ ?_⟩
  · obtain ⟨runs, hruns, -⟩ := exists_runs_gatherParagraphs [] (by simp) (normalLines s)
    rw [List.nil_append] at hruns
    refine ⟨runs, fun runs' ↦ ⟨fun h ↦ h.unique hruns, fun h ↦ h ▸ hruns⟩, chunk_paragraph_eq hruns,
      hruns.flatten_eq, fun c hc ↦ ?_⟩
    rw [chunk_paragraph_eq hruns] at hc
    obtain ⟨run, hrun, rfl⟩ := List.mem_map.1 hc
    obtain ⟨hne, hsubset, hall⟩ := hruns.of_mem hrun
    exact isParagraph_joinLines hne hsubset hall
  · rw [chunk_paragraph_eq (hspaced.runs hchunks), List.map_map]
    refine (List.map_congr_left fun c _ ↦ ?_).trans (List.map_id chunks)
    rw [Function.comp, joinLines, List.intercalate_splitOn, String.ofList_toList, id]

/-- Two paragraphs, the second of which begins with a space, behind blank lines that have a tab, a
carriage return in front of a line end and a no-break space. -/
theorem paragraphs_determined_gap :
    (∀ c ∈ ["one\ntwo", " three"], IsParagraph c) ∧
      Spaced ["one\ntwo", " three"] "one\ntwo\n\t\r\n\n\u00a0\n three" ∧
      chunk .paragraph "one\ntwo\n\t\r\n\n\u00a0\n three" = ["one\ntwo", " three"] := by
  have hchunks : ∀ c ∈ ["one\ntwo", " three"], IsParagraph c := by decide +kernel
  have hgap : allBlank "\t\r\n\n\u00a0".toList = true := by decide +kernel
  have hspaced : Spaced ["one\ntwo", " three"] "one\ntwo\n\t\r\n\n\u00a0\n three" :=
    .more hgap (by decide) (.last " three")
  exact ⟨hchunks, hspaced, paragraphs_determined.2 _ _ hchunks hspaced⟩

end FragmentParser.Chunking
