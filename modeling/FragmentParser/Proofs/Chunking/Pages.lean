import FragmentParser.Chunking.Basic
import FragmentParser.Proofs.Chunking.Normal
import FragmentParser.Proofs.Text.Pieces

/-!
# Lines and pages lose no text

Lines and pages are cut in the same way: a normal text is taken to pieces at a separator, and the
**last** piece is no chunk if it is vacant, which for lines means empty and for pages blank
(`Keeps`, `keeps_lines`, `keeps_pages`). No other piece is looked at, so vacant pieces further in
front are chunks, and of several vacant pieces at the end all but one.

The pieces with their separators are the text, and therefore the chunks are, but for what the last
piece was (`Keeps.text_eq`). There may be no chunks at all, and then the text is that piece without
a separator.
-/

namespace FragmentParser.Chunking

open Text

/-- The pieces of a text between separators. -/
def pieces (sep : Char) (s : String) : List String := (s.toList.splitOn sep).map String.ofList

/-- The chunks are all pieces but a vacant one at the end. -/
inductive Keeps (vacant : String → Prop) : List String → List String → Prop where
  /-- The last piece is not vacant. -/
  | all {chunks : List String} : (∀ last ∈ chunks.getLast?, ¬vacant last) →
      Keeps vacant chunks chunks
  /-- The last piece is vacant. -/
  | butLast {chunks : List String} {last : String} : vacant last →
      Keeps vacant (chunks ++ [last]) chunks

variable {vacant : String → Prop} {sep : Char} {s : String} {chunks : List String}

/-- The pieces joined by separators are the text. -/
theorem intercalate_pieces (sep : Char) (s : String) :
    (String.singleton sep).intercalate (pieces sep s) = s := by
  refine String.toList_inj.1 ?_
  rw [pieces, String.toList_intercalate, List.map_map, String.toList_singleton]
  simp [Function.comp_def, String.toList_ofList, List.intercalate_splitOn]

theorem notMem_of_mem_pieces {piece : String} (h : piece ∈ pieces sep s) : sep ∉ piece.toList := by
  obtain ⟨cs, hcs, rfl⟩ := List.mem_map.1 h
  rw [String.toList_ofList]
  exact notMem_of_mem_splitOn hcs

/-- The chunks joined by separators are the text, up to a vacant piece behind the last separator. -/
theorem Keeps.text_eq (h : Keeps vacant (pieces sep s) chunks) :
    s = (String.singleton sep).intercalate chunks ∨ ∃ last, vacant last ∧ sep ∉ last.toList ∧
      (chunks = [] ∧ s = last ∨
        chunks ≠ [] ∧
          s = (String.singleton sep).intercalate chunks ++ String.singleton sep ++ last) := by
  have htext := intercalate_pieces sep s
  have hmem := @notMem_of_mem_pieces sep s
  generalize pieces sep s = ps at h htext hmem
  cases h with
  | all => exact .inl htext.symm
  | @butLast chunks last hlast =>
    refine .inr ⟨last, hlast, hmem (List.mem_append_right _ (List.mem_singleton_self last)), ?_⟩
    rcases eq_or_ne chunks [] with rfl | hne
    · rw [List.nil_append, String.intercalate_singleton] at htext
      exact .inl ⟨rfl, htext.symm⟩
    · rw [String.intercalate_append_of_ne_nil hne (List.cons_ne_nil _ _),
        String.intercalate_singleton] at htext
      exact .inr ⟨hne, htext.symm⟩

theorem Keeps.notMem (h : Keeps vacant (pieces sep s) chunks) {chunk : String}
    (hchunk : chunk ∈ chunks) : sep ∉ chunk.toList := by
  have hmem := @notMem_of_mem_pieces sep s
  generalize pieces sep s = ps at h hmem
  cases h with
  | all => exact hmem hchunk
  | butLast => exact hmem (List.mem_append_left _ hchunk)

/-- To look at the last piece alone is to keep the others. -/
theorem keeps_map {p : List Char → Bool} (hp : ∀ cs, p cs = true ↔ vacant (String.ofList cs))
    (ps : List (List Char)) :
    Keeps vacant (ps.map String.ofList)
      ((if ps.getLast?.any p then ps.dropLast else ps).map String.ofList) := by
  rcases List.eq_nil_or_concat ps with rfl | ⟨front, last, rfl⟩
  · exact .all (by simp)
  · rw [List.concat_eq_append, List.getLast?_concat, Option.any_some, List.dropLast_concat]
    split
    · next hlast =>
      rw [List.map_append, List.map_singleton]
      exact .butLast ((hp last).1 hlast)
    · next hlast =>
      refine .all fun l hl ↦ ?_
      rw [List.map_append, List.map_singleton, List.getLast?_concat] at hl
      obtain rfl := Option.some.inj hl
      exact fun hvacant ↦ hlast ((hp last).2 hvacant)

/-- Without carriage returns the lines are the pieces between line feeds but for an empty one at the
end. -/
theorem lines_eq_pieces {cs : List Char} (h : '\r' ∉ cs) :
    lines cs = if (cs.splitOn '\n').getLast?.any List.isEmpty then (cs.splitOn '\n').dropLast
      else cs.splitOn '\n' := by
  have hreturn : ∀ l ∈ cs.splitOn '\n', '\r' ∉ l := fun l hl hmem ↦ h (mem_of_mem_splitOn hl hmem)
  rcases List.eq_nil_or_concat (cs.splitOn '\n') with hnil | ⟨front, last, hsplit⟩
  · exact absurd hnil (List.splitOn_ne_nil _ _)
  · rw [List.concat_eq_append] at hsplit
    rw [hsplit] at hreturn
    have hfront : front.map dropReturn = front :=
      map_dropReturn_of_notMem fun l hl ↦ hreturn l (List.mem_append_left _ hl)
    rw [lines, hsplit, List.dropLast_concat, hfront, List.getLast?_concat, Option.toList_some,
      Option.any_some]
    cases last <;> simp

theorem keeps_lines (s : String) : Keeps (· = "") (pieces '\n' (normalize s)) (chunk .line s) := by
  have hreturn : '\r' ∉ normalChars s.toList := fun h ↦ (mem_normalChars h).2.1 rfl
  have hempty : ∀ cs : List Char, cs.isEmpty = true ↔ String.ofList cs = "" := fun cs ↦ by
    rw [List.isEmpty_iff, ← String.toList_inj, String.toList_ofList]
    rfl
  rw [pieces, normalize, String.toList_ofList]
  simp only [chunk, lines_eq_pieces hreturn]
  exact keeps_map hempty _

theorem keeps_pages (s : String) :
    Keeps (fun page ↦ allBlank page.toList = true) (pieces '\x0c' (normalize s))
      (chunk .page s) := by
  have hblank : ∀ cs, allBlank cs = true ↔ allBlank (String.ofList cs).toList = true := fun cs ↦ by
    rw [String.toList_ofList]
  rw [pieces, normalize, String.toList_ofList]
  exact keeps_map hblank _

/-- **Lines and pages lose no text.** A normal text is its lines joined by line feeds, or that with
a line feed behind it. It is its pages joined by form feeds, or there is blank text without form
feeds that is all of it or stands behind one more form feed. No line has a line feed and no page a
form feed, and nothing but this last line or page is missing: the others are all the pieces between
line feeds or form feeds, empty and blank ones too. -/
theorem cuts_lose_no_text (s : String) :
    ((normalize s = "\n".intercalate (chunk .line s) ∨
        normalize s = "\n".intercalate (chunk .line s) ++ "\n") ∧
      (∀ line ∈ chunk .line s, '\n' ∉ line.toList) ∧
      Keeps (· = "") (pieces '\n' (normalize s)) (chunk .line s)) ∧
    (normalize s = "\x0c".intercalate (chunk .page s) ∨
      ∃ blank : String, allBlank blank.toList = true ∧ '\x0c' ∉ blank.toList ∧
        (chunk .page s = [] ∧ normalize s = blank ∨ chunk .page s ≠ [] ∧
          normalize s = "\x0c".intercalate (chunk .page s) ++ "\x0c" ++ blank)) ∧
    (∀ page ∈ chunk .page s, '\x0c' ∉ page.toList) ∧
    Keeps (fun page ↦ allBlank page.toList = true) (pieces '\x0c' (normalize s))
      (chunk .page s) := by
  have hlines := keeps_lines s
  have hpages := keeps_pages s
  refine ⟨⟨?_, fun line ↦ hlines.notMem, hlines⟩, hpages.text_eq, fun page ↦ hpages.notMem, hpages⟩
  rcases hlines.text_eq with htext | ⟨_, rfl, -, ⟨hnil, htext⟩ | ⟨-, htext⟩⟩
  · exact .inl htext
  · rw [htext, hnil]
    exact .inl rfl
  · rw [String.append_empty] at htext
    exact .inr htext

example : chunk .page "one\x0c\x0c \n\x0c\t" = ["one", "", " \n"] := by decide +kernel

end FragmentParser.Chunking
