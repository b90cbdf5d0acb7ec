import FragmentParser.Proofs.Command.Runs
import FragmentParser.Proofs.Outline.Content
import FragmentParser.Proofs.Outline.Numbering

/-!
# Headings are lines

However a text is cut, the headings of its outline are single lines of it, with no period as their
last character. The title is a different matter. It is read with all that comes to the end of the
chunk, so that a period is not its last character **before** it is trimmed; trimmed, it ends with
the last character of the chunk that is not blank. So a heading keeps the period that blanks follow
(`heading_of_line`): a line may end in spaces, and a page ends in a line feed as a rule, and `1
Intro.` is a section with the title `Intro.` there (`not_forall_title`).

Both facts come from what a heading is as it is written (`WrittenHeading`). Which chunk an element
was made of is what the account of the chunks says (`exists_madeOf`).
-/

namespace FragmentParser.Outline

open Text

variable {x : String} {t n : Node} {p : List Nat} {w : WrittenHeading} {h : Heading}

/-- The kinds of headings. -/
def headingKinds : List String := ["section", "subsection", "subsubsection"]

/-- The node is a heading, and the chunk is its line. -/
structure HeadingLine (x : String) (n : Node) : Prop where
  /-- Number and title are read off the chunk. -/
  madeOf : MadeOf x n
  /-- The chunk is one line. -/
  length_lines : (lines x.toList).length = 1
  /-- It does not end with a period. -/
  getLast?_ne : x.toList.getLast? ≠ some '.'
  /-- The title ends with the last character of the chunk that is not blank, unless it is empty. -/
  title : ∃ title, n.attribute? "title" = some title ∧
    ∀ c, title.toList.getLast? = some c ↔ title ≠ "" ∧ (trimEnd x.toList).getLast? = some c

/-! ### Written headings -/

theorem WrittenHeading.tail_ne_nil (w : WrittenHeading) : w.tail ≠ [] := by
  have hpos : 0 < w.tail.length := Nat.lt_of_lt_of_le Nat.zero_lt_two w.isTail.two_le_length
  exact List.ne_nil_of_length_pos hpos

/-- A line feed can only be the last character. -/
theorem WrittenHeading.length_lines (w : WrittenHeading) : (lines w.chars).length = 1 := by
  refine length_lines_eq_one (List.cons_ne_nil _ _) ?_
  rw [chars, List.dropLast_append_of_ne_nil w.tail_ne_nil, List.mem_append]
  rintro (hnumber | htail)
  · rcases List.mem_cons.1 hnumber with hdigit | hothers
    · exact absurd (hdigit ▸ w.isDigit_digit) (by decide)
    · exact absurd (w.isDigit_others _ hothers) (by decide)
  · exact w.isTail.notMem_dropLast htail

/-- Nothing but blanks follows the title. -/
theorem WrittenHeading.Means.getLast?_trimEnd (hmeans : w.Means h) (hne : h.title ≠ []) :
    (trimEnd w.chars).getLast? = h.title.getLast? := by
  obtain ⟨before, after, htail, hblank⟩ := hmeans.title_between
  have htrim : trimEnd w.chars = w.digit :: w.others ++ before ++ h.title := by
    refine dropEndWhile_eq_iff.2 ⟨after, ?_, fun c hc ↦ hblank c (List.mem_append_right _ hc), ?_⟩
    · rw [chars, ← htail]
      simp
    · rw [List.getLast?_append_of_ne_nil _ hne]
      exact hmeans.getLast?_title
  rw [htrim, List.getLast?_append_of_ne_nil _ hne]

/-! ### Headings of documents -/

theorem MadeOf.headingLine (h : MadeOf x n) (hkind : n.kind ∈ headingKinds) : HeadingLine x n := by
  cases h with
  | @heading h kind children hx hdepth htext =>
    obtain ⟨w, hchars, hmeans⟩ := heading?_eq_some_iff_written.1 hx
    refine ⟨.heading hx hdepth htext, hchars ▸ w.length_lines, ?_, String.ofList h.title, rfl, ?_⟩
    · rw [← hchars, w.getLast?_chars]
      exact w.isTail.getLast?_ne
    · intro c
      have hempty : String.ofList h.title = "" ↔ h.title = [] :=
        ⟨fun hnil ↦ by simpa using congrArg String.toList hnil, fun hnil ↦ by rw [hnil]⟩
      rw [← hchars, String.toList_ofList]
      by_cases hne : h.title = []
      · simp [hne]
      · simp [hmeans.getLast?_trimEnd hne, hempty, hne]
  | item =>
    have hnot : "list-item" ∉ headingKinds := by decide
    exact absurd hkind hnot
  | header =>
    have hnot : "header" ∉ headingKinds := by decide
    exact absurd hkind hnot
  | paragraph | state =>
    have hnot : "paragraph" ∉ headingKinds := by decide
    exact absurd hkind hnot
  | preformatted =>
    have hnot : "preformatted" ∉ headingKinds := by decide
    exact absurd hkind hnot

/-- **Headings are lines.** However a text is cut, every section, subsection and subsubsection of
its outline is made of a chunk that is one line and does not end with a period. Its title ends with
the last character of this line that is not blank, so with a period exactly if blanks follow one at
the end of the line. -/
theorem heading_of_line {c : Chunking} {text : String}
    (h : (parseDocument .bundled ⟨"outline", c⟩ text).result = some (.ok t))
    (hn : t.get? p = some n) (hkind : n.kind ∈ headingKinds) :
    ∃ x ∈ c.chunk text, HeadingLine x n := by
  have hparse : (CatalogEntry.outline.parse (c.chunk text)).result = some (.ok t) := by
    rcases result_parseDocument_iff.1 h with ⟨-, hrun⟩ | ⟨hname, -⟩
    · exact describes.result_report_iff.2 hrun
    · exact absurd hname (by decide)
  have hchunk : ∀ kind ∈ headingKinds, kind ∈ chunkKinds := by decide
  obtain ⟨x, hx, hmade⟩ := exists_madeOf hparse hn (hchunk _ hkind)
  exact ⟨x, hx, hmade.headingLine hkind⟩

/-- A page keeps the line feed at its end, and so its title keeps the period. -/
theorem heading_of_line_page :
    ∃ t n, t = .element "body" .empty [.element "section"
        ((NameTable.empty.insert "ordinal" "1").insert "title" "One") [n]] ∧
      n = .element "subsection" ((NameTable.empty.insert "ordinal" "1.2").insert "title" "Intro.") [] ∧
      (parseDocument .bundled ⟨"outline", .page⟩ "1 One\n\x0c1.2 Intro.\n").result = some (.ok t) ∧
      t.get? [0, 0] = some n ∧ n.kind ∈ headingKinds ∧
      ∃ x ∈ Chunking.page.chunk "1 One\n\x0c1.2 Intro.\n", HeadingLine x n := by
  let n : Node := .element "subsection"
    ((NameTable.empty.insert "ordinal" "1.2").insert "title" "Intro.") []
  let t : Node := .element "body" .empty
    [.element "section" ((NameTable.empty.insert "ordinal" "1").insert "title" "One") [n]]
  have ht : (parseDocument .bundled ⟨"outline", .page⟩ "1 One\n\x0c1.2 Intro.\n").result =
      some (.ok t) := by decide +kernel
  have hn : t.get? [0, 0] = some n := rfl
  have hkind : n.kind ∈ headingKinds := by decide
  exact ⟨t, n, rfl, rfl, ht, hn, hkind, heading_of_line ht hn hkind⟩

/-- A title may end with a period. -/
theorem not_forall_title : ¬∀ (text : String) (c : Chunking) (t : Node) (p : List Nat) (n : Node)
    (title : String), (parseDocument .bundled ⟨"outline", c⟩ text).result = some (.ok t) →
      t.get? p = some n → n.kind ∈ headingKinds → n.attribute? "title" = some title →
        title.toList.getLast? ≠ some '.' := by
  intro h
  exact h "1 Intro. \n" .line _ [0] _ "Intro." rfl rfl (by decide) rfl rfl

end FragmentParser.Outline
