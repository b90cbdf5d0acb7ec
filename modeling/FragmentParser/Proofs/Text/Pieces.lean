import FragmentParser.Text.Lines
import Mathlib.Data.List.TakeWhile

/-!
# Pieces of texts

What the functions that cut a text leave in its pieces: lines have no line feeds, words have no
blanks, and trimming adds nothing. Runs and trimmed texts are described by what they are made of
(`takeWhile_dropWhile_eq_iff`, `trim_eq_iff`).
-/

namespace FragmentParser.Text

section Cut

variable {α : Type} {p : α → Bool}

/-- What has no separators goes to the first piece. -/
theorem splitOnP_append {a : List α} (ha : ∀ x ∈ a, p x = false) (xs : List α) :
    (a ++ xs).splitOnP p = (xs.splitOnP p).modifyHead (a ++ ·) := by
  induction a with
  | nil => cases h : xs.splitOnP p <;> simp [h]
  | cons x a ih =>
    rw [List.cons_append, List.splitOnP_cons_eq_if_modifyHead, ha x List.mem_cons_self,
      ih fun y hy ↦ ha y (List.mem_cons_of_mem x hy)]
    simp [Function.comp_def]

/-- No separator is left in a piece. -/
theorem eq_false_of_mem_splitOnP {xs piece : List α} (h : piece ∈ xs.splitOnP p) {x : α}
    (hx : x ∈ piece) : p x = false := by
  induction xs generalizing piece with
  | nil =>
    rw [List.splitOnP_nil] at h
    rw [List.mem_singleton.1 h] at hx
    cases hx
  | cons y xs ih =>
    rw [List.splitOnP_cons_eq_if_modifyHead] at h
    split at h
    · rcases List.mem_cons.1 h with rfl | h
      · cases hx
      · exact ih h hx
    · next hy =>
      obtain ⟨first, others, hsplit⟩ := List.exists_cons_of_ne_nil (List.splitOnP_ne_nil p xs)
      rw [hsplit, List.modifyHead_cons] at h
      rcases List.mem_cons.1 h with rfl | h
      · rcases List.mem_cons.1 hx with rfl | hx
        · exact Bool.eq_false_iff.2 hy
        · exact ih (hsplit ▸ List.mem_cons_self) hx
      · exact ih (hsplit ▸ List.mem_cons_of_mem _ h) hx

/-- A text is cut in one way only into a beginning with `q` and what begins without. -/
theorem append_inj_of_boundary {q : α → Prop} {a b x y : List α} (ha : ∀ c ∈ a, q c)
    (hb : ∀ c ∈ b, q c) (hx : ∀ c ∈ x.head?, ¬q c) (hy : ∀ c ∈ y.head?, ¬q c)
    (h : a ++ x = b ++ y) : a = b ∧ x = y := by
  induction a generalizing b with
  | nil =>
    rcases b with _ | ⟨c, b⟩
    · exact ⟨rfl, h⟩
    · exact absurd (hb c List.mem_cons_self) (hx c (by rw [← List.nil_append x, h]; rfl))
  | cons e a ih =>
    rcases b with _ | ⟨c, b⟩
    · exact absurd (ha e List.mem_cons_self) (hy e (by rw [← List.nil_append y, ← h]; rfl))
    · obtain ⟨rfl, htail⟩ := List.cons_eq_cons.1 h
      obtain ⟨rfl, hrest⟩ := ih (fun d hd ↦ ha d (List.mem_cons_of_mem e hd))
        (fun d hd ↦ hb d (List.mem_cons_of_mem e hd)) htail
      exact ⟨rfl, hrest⟩

/-- The run of `p` at the front of a text and what follows it, described by what they are made
of. -/
theorem takeWhile_dropWhile_eq_iff {cs a x : List α} :
    cs.takeWhile p = a ∧ cs.dropWhile p = x ↔
      a ++ x = cs ∧ (∀ c ∈ a, p c = true) ∧ ∀ c ∈ x.head?, p c = false := by
  constructor
  · rintro ⟨rfl, rfl⟩
    refine ⟨List.takeWhile_append_dropWhile, fun c ↦ List.mem_takeWhile_imp, fun c hc ↦ ?_⟩
    have hhead := List.head?_dropWhile_not p cs
    rw [hc] at hhead
    simpa using hhead
  · rintro ⟨rfl, ha, hx⟩
    rw [List.takeWhile_append_of_pos ha, List.dropWhile_append_of_pos ha]
    rcases x with _ | ⟨c, x⟩
    · exact ⟨List.append_nil a, rfl⟩
    · rw [List.takeWhile_cons_of_neg (by simp [hx c rfl]),
        List.dropWhile_cons_of_neg (by simp [hx c rfl])]
      exact ⟨List.append_nil a, rfl⟩

theorem mem_intercalate_of_mem {sep w : List α} {ws : List (List α)} (hw : w ∈ ws) {c : α}
    (hc : c ∈ w) : c ∈ sep.intercalate ws := by
  induction ws with
  | nil => cases hw
  | cons v ws ih =>
    rcases ws with _ | ⟨u, ws⟩
    · rw [List.intercalate_singleton]
      exact List.mem_singleton.1 hw ▸ hc
    · rw [List.intercalate_cons_cons, List.mem_append, List.mem_append]
      rcases List.mem_cons.1 hw with rfl | hw
      · exact .inl (.inl hc)
      · exact .inr (ih hw)

theorem mem_of_mem_intercalate {sep c : α} {ws : List (List α)}
    (h : c ∈ [sep].intercalate ws) : (∃ w ∈ ws, c ∈ w) ∨ c = sep := by
  induction ws with
  | nil => cases h
  | cons w ws ih =>
    cases ws with
    | nil => exact .inl ⟨w, List.mem_cons_self, by simpa using h⟩
    | cons w' ws =>
      rw [List.intercalate_cons_cons, List.mem_append, List.mem_append, List.mem_singleton] at h
      rcases h with (h | h) | h
      · exact .inl ⟨w, List.mem_cons_self, h⟩
      · exact .inr h
      · exact (ih h).imp_left fun ⟨w, hw, hc⟩ ↦ ⟨w, List.mem_cons_of_mem _ hw, hc⟩

end Cut

/-! ### Words -/

/-- A blank ends a word. -/
theorem words_append_cons (a : List Char) {b : Char} (hb : isBlank b = true) (cs : List Char) :
    words (a ++ b :: cs) = words a ++ words cs := by
  rw [words, List.splitOnP_append_cons a cs hb, List.filter_append]
  rfl

theorem words_append_of_blank {a : List Char} (ha : ∀ c ∈ a, isBlank c = true) (cs : List Char) :
    words (a ++ cs) = words cs := by
  induction a with
  | nil => rfl
  | cons c a ih =>
    have h := words_append_cons [] (ha c List.mem_cons_self) (a ++ cs)
    exact h.trans (ih fun d hd ↦ ha d (List.mem_cons_of_mem c hd))

theorem isBlank_of_mem_words {cs w : List Char} (h : w ∈ words cs) {c : Char} (hc : c ∈ w) :
    isBlank c = false :=
  eq_false_of_mem_splitOnP (List.mem_filter.1 h).1 hc

/-- A text that is set as one line has no line feeds. -/
theorem notMem_flow (s : String) : '\n' ∉ (flow s).toList := by
  rw [flow, String.toList_ofList]
  intro h
  rcases mem_of_mem_intercalate h with ⟨w, hw, hc⟩ | h
  · exact absurd (isBlank_of_mem_words hw hc) (by decide)
  · exact absurd h (by decide)

/-! ### Trimming -/

/-- Dropping the end leaves what does not end in `p`, and drops characters in `p`. -/
theorem dropEndWhile_eq_iff {p : Char → Bool} {cs front : List Char} :
    dropEndWhile p cs = front ↔
      ∃ back, front ++ back = cs ∧ (∀ c ∈ back, p c = true) ∧ ∀ c ∈ front.getLast?, p c = false := by
  rw [dropEndWhile, List.reverse_eq_iff]
  constructor
  · intro h
    obtain ⟨hcs, hback, hfront⟩ := takeWhile_dropWhile_eq_iff.1 ⟨rfl, h⟩
    refine ⟨(cs.reverse.takeWhile p).reverse, ?_, fun c hc ↦ hback c (List.mem_reverse.1 hc), ?_⟩
    · refine List.reverse_inj.1 ?_
      rw [List.reverse_append, List.reverse_reverse, hcs]
    · rwa [List.head?_reverse] at hfront
  · rintro ⟨back, rfl, hback, hfront⟩
    refine (takeWhile_dropWhile_eq_iff.2 ⟨?_, fun c hc ↦ hback c (List.mem_reverse.1 hc), ?_⟩).2
    · exact List.reverse_append.symm
    · rwa [List.head?_reverse]

/-- Blanks in front do not change what is trimmed. -/
theorem trim_append_of_blank {a : List Char} (ha : ∀ c ∈ a, isBlank c = true) (cs : List Char) :
    trim (a ++ cs) = trim cs := by
  rw [trim, List.dropWhile_append_of_pos ha, trim]

/-- Trimming drops blanks at both ends and leaves what neither begins nor ends with one. -/
theorem trim_eq_iff {cs title : List Char} :
    trim cs = title ↔
      ∃ before after, before ++ title ++ after = cs ∧
        (∀ c ∈ before ++ after, isBlank c = true) ∧
        (∀ c ∈ title.head?, isBlank c = false) ∧ ∀ c ∈ title.getLast?, isBlank c = false := by
  constructor
  · intro h
    obtain ⟨after, hdrop, hafter, hlast⟩ := dropEndWhile_eq_iff.1 h
    obtain ⟨hcs, hbefore, hhead⟩ := takeWhile_dropWhile_eq_iff.1 ⟨rfl, hdrop.symm⟩
    refine ⟨_, after, by rw [List.append_assoc, hcs], fun c hc ↦ ?_, fun c hc ↦ ?_, hlast⟩
    · exact (List.mem_append.1 hc).elim (hbefore c) (hafter c)
    · exact hhead c (List.head?_append.trans (by rw [hc, Option.some_or]))
  · rintro ⟨before, after, rfl, hblank, hhead, hlast⟩
    have hbefore : ∀ c ∈ before, isBlank c = true := fun c hc ↦
      hblank c (List.mem_append_left after hc)
    have hafter : ∀ c ∈ after, isBlank c = true := fun c hc ↦
      hblank c (List.mem_append_right before hc)
    rw [List.append_assoc, trim_append_of_blank hbefore]
    rcases title with _ | ⟨d, title⟩
    · rw [List.nil_append, ← List.append_nil after, trim_append_of_blank hafter]
      rfl
    · rw [trim, List.cons_append, List.dropWhile_cons_of_neg (by simp [hhead d rfl])]
      exact dropEndWhile_eq_iff.2 ⟨after, rfl, hafter, hlast⟩

theorem mem_of_mem_dropEndWhile {p : Char → Bool} {cs : List Char} {c : Char}
    (h : c ∈ dropEndWhile p cs) : c ∈ cs := by
  have hdrop := (List.dropWhile_sublist p).subset (List.mem_reverse.1 h)
  exact List.mem_reverse.1 hdrop

theorem mem_of_mem_trimEnd {cs : List Char} {c : Char} (h : c ∈ trimEnd cs) : c ∈ cs :=
  mem_of_mem_dropEndWhile h

theorem mem_of_mem_trim {cs : List Char} {c : Char} (h : c ∈ trim cs) : c ∈ cs :=
  (List.dropWhile_sublist isBlank).subset (mem_of_mem_trimEnd h)

theorem trimEnd_concat (cs : List Char) {c : Char} (hc : isBlank c = true) :
    trimEnd (cs ++ [c]) = trimEnd cs := by
  rw [trimEnd, trimEnd, dropEndWhile, dropEndWhile, List.reverse_append, List.reverse_singleton,
    List.singleton_append, List.dropWhile_cons_of_pos hc]

theorem trim_concat (cs : List Char) {c : Char} (hc : isBlank c = true) :
    trim (cs ++ [c]) = trim cs := by
  rw [trim, List.dropWhile_append, trim]
  split
  · next hblank => rw [List.isEmpty_iff.1 hblank, List.dropWhile_cons_of_pos hc, List.dropWhile_nil]
  · exact trimEnd_concat _ hc

/-- A blank that trimming leaves is not the last character. -/
theorem mem_dropLast_of_mem_trim {cs : List Char} {c : Char} (hc : isBlank c = true)
    (h : c ∈ trim cs) : c ∈ cs.dropLast := by
  rcases List.eq_nil_or_concat cs with rfl | ⟨front, d, rfl⟩
  · cases h
  · rw [List.concat_eq_append] at h ⊢
    rw [List.dropLast_concat]
    by_cases hd : d = c
    · rw [hd, trim_concat front hc] at h
      exact mem_of_mem_trim h
    · have hmem := mem_of_mem_trim h
      simp only [List.mem_append, List.mem_singleton, Ne.symm hd, or_false] at hmem
      exact hmem

/-! ### Lines -/

theorem mem_of_mem_dropReturn {line : List Char} {c : Char} (h : c ∈ dropReturn line) :
    c ∈ line := by
  rw [dropReturn] at h
  split at h
  · exact (List.dropLast_sublist line).subset h
  · exact h

theorem mem_of_mem_splitOn {cs piece : List Char} {d c : Char} (h : piece ∈ cs.splitOn d)
    (hc : c ∈ piece) : c ∈ cs := by
  rw [← @List.intercalate_splitOn _ cs _ _ d]
  exact mem_intercalate_of_mem h hc

theorem notMem_of_mem_splitOn {cs piece : List Char} {d : Char} (h : piece ∈ cs.splitOn d) :
    d ∉ piece := by
  rw [List.splitOn_eq_splitOnP] at h
  intro hd
  simpa using eq_false_of_mem_splitOnP h hd

/-- A line has no line feeds. -/
theorem notMem_of_mem_lines {cs line : List Char} (h : line ∈ lines cs) : '\n' ∉ line := by
  rw [lines] at h
  rcases List.mem_append.1 h with h | h
  · obtain ⟨piece, hmem, rfl⟩ := List.mem_map.1 h
    exact fun hline ↦ notMem_of_mem_splitOn ((List.dropLast_sublist _).subset hmem)
      (mem_of_mem_dropReturn hline)
  · have hmem := Option.mem_toList.1 (List.mem_filter.1 h).1
    exact notMem_of_mem_splitOn (List.mem_of_getLast? hmem)

theorem map_dropReturn_of_notMem {ls : List (List Char)} (h : ∀ l ∈ ls, '\r' ∉ l) :
    ls.map dropReturn = ls := by
  refine (List.map_congr_left fun l hl ↦ ?_).trans (List.map_id ls)
  rw [dropReturn, if_neg fun hlast ↦ h l hl (List.mem_of_getLast? hlast), id]

theorem mem_of_mem_lines {cs line : List Char} {c : Char} (h : line ∈ lines cs) (hc : c ∈ line) :
    c ∈ cs := by
  rw [lines] at h
  rcases List.mem_append.1 h with h | h
  · obtain ⟨piece, hmem, rfl⟩ := List.mem_map.1 h
    exact mem_of_mem_splitOn ((List.dropLast_sublist _).subset hmem) (mem_of_mem_dropReturn hc)
  · have hmem := Option.mem_toList.1 (List.mem_filter.1 h).1
    exact mem_of_mem_splitOn (List.mem_of_getLast? hmem) hc

/-- A line feed ends the lines before it. -/
theorem lines_append_cons {a : List Char} (ha : '\r' ∉ a) (cs : List Char) :
    lines (a ++ '\n' :: cs) = a.splitOn '\n' ++ lines cs := by
  have hne := List.splitOn_ne_nil '\n' cs
  have hmap : (a.splitOn '\n').map dropReturn = a.splitOn '\n' :=
    map_dropReturn_of_notMem fun l hl hmem ↦ ha (mem_of_mem_splitOn hl hmem)
  rw [lines, List.splitOn_append_cons_self, List.dropLast_append_of_ne_nil hne, List.map_append, hmap,
    List.getLast?_append, List.getLast?_eq_some_getLast hne, Option.some_or,
    ← List.getLast?_eq_some_getLast hne, List.append_assoc, lines]

/-- A text that does not end in a line feed is as many lines as there are pieces between its line
feeds. -/
theorem lines_eq_splitOn {cs : List Char} (hreturn : '\r' ∉ cs)
    (hlast : ∀ l ∈ (cs.splitOn '\n').getLast?, l ≠ []) : lines cs = cs.splitOn '\n' := by
  have hne := List.splitOn_ne_nil '\n' cs
  rw [List.getLast?_eq_some_getLast hne] at hlast
  have hlast' := hlast _ rfl
  rw [lines, map_dropReturn_of_notMem fun l hl hmem ↦
      hreturn (mem_of_mem_splitOn ((List.dropLast_sublist _).subset hl) hmem),
    List.getLast?_eq_some_getLast hne, Option.toList_some,
    List.filter_eq_self.2 (by simpa using hlast'), List.dropLast_concat_getLast]

/-- A text is one line if no line feed comes before its last character. -/
theorem length_lines_eq_one {cs : List Char} (hne : cs ≠ []) (h : '\n' ∉ cs.dropLast) :
    (lines cs).length = 1 := by
  rcases List.eq_nil_or_concat cs with rfl | ⟨front, c, rfl⟩
  · exact absurd rfl hne
  · rw [List.concat_eq_append, List.dropLast_concat] at h
    rw [List.concat_eq_append, lines]
    by_cases hc : c = '\n'
    · rw [hc, List.splitOn_append_cons_self_of_not_mem h]
      rfl
    · have hnone : '\n' ∉ front ++ [c] := by simp [h, Ne.symm hc]
      rw [List.splitOn_eq_singleton hnone]
      simp

/-- Lines are told apart by the line feeds at their ends. -/
theorem splitOn_flatMap {ls : List (List Char)} (h : ∀ l ∈ ls, '\n' ∉ l) :
    (ls.flatMap (· ++ ['\n'])).splitOn '\n' = ls ++ [[]] := by
  induction ls with
  | nil => rfl
  | cons l ls ih =>
    rw [List.flatMap_cons, List.append_assoc, List.singleton_append,
      List.splitOn_append_cons_self_of_not_mem (h l List.mem_cons_self),
      ih fun l' hl' ↦ h l' (List.mem_cons_of_mem l hl'), List.cons_append]

end FragmentParser.Text
