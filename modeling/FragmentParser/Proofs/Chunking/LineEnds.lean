import FragmentParser.Chunking.Basic
import FragmentParser.Proofs.Chunking.Normal
import FragmentParser.Proofs.Text.Pieces
import Mathlib.Data.List.Forall2
import Mathlib.Data.List.Induction

/-!
# A text is normalized line by line

Normalizing goes through a text from left to right: line ends first, then tabs, with the column of
the line that is being written. What it comes to needs neither column nor order: the text is cut at
its line ends, each line has its tabs expanded **by itself**, and the lines are joined by line
feeds.

* `splitLines` cuts at all three line ends. Replacing each carriage return that has a line feed
  behind it, and then each one that is left, cuts at the same places
  (`unifyLineEnds_eq_replaceText`, `unifyLineEnds_eq_joinLines`).
* `Expands` says what tabs are in terms of the columns of the expanded line. A line has one
  expansion, and the column that is counted on the way leads to it (`expands_iff`).

So a text is normalized as its lines are (`normalized_by_lines`), and which line ends it has is
forgotten: all that is cut from normal texts is determined by the lines.
-/

namespace FragmentParser.Chunking

open Text

variable {a cs line expanded : List Char} {ls : List (List Char)} {k : Nat}

/-! ### Replacements -/

/-- The text with `new` for each `old`, from left to right. -/
def replaceText (old new : List Char) : List Char → List Char
  | [] => []
  | c :: cs =>
    if old.isPrefixOf (c :: cs) then new ++ replaceText old new (cs.drop (old.length - 1))
    else c :: replaceText old new cs
termination_by cs => cs.length
decreasing_by all_goals grind

theorem replaceText_singleton (b c : Char) (cs : List Char) :
    replaceText [b] [c] cs = cs.map fun d ↦ if d = b then c else d := by
  induction cs with
  | nil => rw [replaceText, List.map_nil]
  | cons d cs ih =>
    rw [replaceText, List.map_cons]
    by_cases h : d = b
    · simp [h, ih]
    · simp [h, ih, Ne.symm h]

/-- Line ends are made line feeds by two replacements. -/
theorem unifyLineEnds_eq_replaceText (cs : List Char) :
    unifyLineEnds cs = replaceText ['\r'] ['\n'] (replaceText ['\r', '\n'] ['\n'] cs) := by
  rw [replaceText_singleton]
  fun_induction unifyLineEnds cs with
  | case1 cs ih =>
    rw [replaceText]
    simp [ih]
  | case2 cs hcs ih =>
    -- there is no line feed behind the carriage return, which is left to the second replacement
    rw [replaceText]
    rcases cs with _ | ⟨d, cs⟩
    · simp [ih]
    · have hd : '\n' ≠ d := fun h ↦ hcs cs (h ▸ rfl)
      simp [ih, hd]
  | case3 c cs _ hc ih =>
    have hc : c ≠ '\r' := hc
    rw [replaceText]
    simp [ih, hc, hc.symm]
  | case4 => simp [replaceText]

/-! ### Lines -/

/-- The lines of a text. A line ends at a carriage return with its line feed, at a carriage return
alone and at a line feed alone; behind the last line end there is one more line. -/
def splitLines : List Char → List (List Char)
  | [] => [[]]
  | '\r' :: '\n' :: cs => [] :: splitLines cs
  | '\r' :: cs => [] :: splitLines cs
  | '\n' :: cs => [] :: splitLines cs
  | c :: cs => (splitLines cs).modifyHead (c :: ·)

theorem splitLines_ne_nil (cs : List Char) : splitLines cs ≠ [] := by
  fun_induction splitLines cs with
  | case1 | case2 | case3 | case4 => exact List.cons_ne_nil _ _
  | case5 c cs _ _ _ ih => exact fun h ↦ ih (List.modifyHead_eq_nil_iff.1 h)

/-- No line end is left in a line. -/
theorem notMem_of_mem_splitLines (h : line ∈ splitLines cs) : '\n' ∉ line := by
  fun_induction splitLines cs generalizing line with
  | case1 =>
    rw [List.mem_singleton.1 h]
    exact List.not_mem_nil
  | case2 cs ih | case3 cs _ ih | case4 cs ih =>
    rcases List.mem_cons.1 h with rfl | h
    · exact List.not_mem_nil
    · exact ih h
  | case5 c cs _ _ hc ih =>
    obtain ⟨first, others, hsplit⟩ := List.exists_cons_of_ne_nil (splitLines_ne_nil cs)
    rw [hsplit, List.modifyHead_cons] at h
    rcases List.mem_cons.1 h with rfl | h
    · rw [List.mem_cons, not_or]
      exact ⟨fun hfeed ↦ hc hfeed.symm, ih (hsplit ▸ List.mem_cons_self)⟩
    · exact ih (hsplit ▸ List.mem_cons_of_mem _ h)

theorem joinLines_cons (l : List Char) (h : ls ≠ []) :
    joinLines (l :: ls) = l ++ '\n' :: joinLines ls := by
  rw [joinLines, List.intercalate_cons_of_ne_nil h, joinLines, List.append_assoc,
    List.singleton_append]

/-- The uniform line ends are those between the lines. -/
theorem unifyLineEnds_eq_joinLines (cs : List Char) :
    unifyLineEnds cs = joinLines (splitLines cs) := by
  fun_induction splitLines cs with
  | case1 => rfl
  | case2 cs ih => rw [unifyLineEnds, ih, joinLines_cons _ (splitLines_ne_nil cs), List.nil_append]
  | case3 cs hcs ih =>
    rw [unifyLineEnds.eq_2 _ hcs, ih, joinLines_cons _ (splitLines_ne_nil cs), List.nil_append]
  | case4 cs ih =>
    rw [unifyLineEnds.eq_3 _ _ (by simp) (by decide), ih,
      joinLines_cons _ (splitLines_ne_nil cs), List.nil_append]
  | case5 c cs hpair hc _ ih =>
    rw [unifyLineEnds.eq_3 _ _ hpair hc, ih]
    obtain ⟨first, others, hsplit⟩ := List.exists_cons_of_ne_nil (splitLines_ne_nil cs)
    rw [hsplit, List.modifyHead_cons]
    rcases others with _ | ⟨second, others⟩
    · rfl
    · have hne : second :: others ≠ [] := List.cons_ne_nil _ _
      rw [joinLines_cons _ hne, joinLines_cons _ hne, List.cons_append]

/-! ### Tabs -/

/-- The line and what it is with its tabs expanded: each tab has become one to eight spaces, up to
the next column that eight divides, where a column is a character of the expanded line. -/
inductive Expands : List Char → List Char → Prop where
  /-- The line is empty. -/
  | nil : Expands [] []
  /-- Another character stays. -/
  | char {line expanded : List Char} {c : Char} : Expands line expanded → c ≠ '\t' →
      Expands (line ++ [c]) (expanded ++ [c])
  /-- A tab reaches to the next tab stop. -/
  | tab {line expanded : List Char} {n : Nat} : Expands line expanded → 1 ≤ n → n ≤ 8 →
      8 ∣ expanded.length + n → Expands (line ++ ['\t']) (expanded ++ List.replicate n ' ')

/-- Inside a line the column goes on with what has been written. -/
theorem expandTabs_append (ha : '\n' ∉ a) (cs : List Char) :
    expandTabs k (a ++ cs) = expandTabs k a ++ expandTabs (k + (expandTabs k a).length) cs := by
  induction a generalizing k with
  | nil => rfl
  | cons d a ih =>
    rw [List.mem_cons, not_or] at ha
    simp only [List.cons_append, expandTabs, ih ha.2]
    split
    · rw [List.append_assoc, List.length_append, List.length_replicate, Nat.add_assoc]
    · rw [if_neg (Ne.symm ha.1), if_neg (Ne.symm ha.1), List.cons_append, List.length_cons,
        Nat.add_assoc, Nat.add_comm 1]

/-- A tab at a column is the spaces up to the next tab stop. -/
theorem expandTabs_tab (k : Nat) :
    ∃ n, expandTabs k ['\t'] = List.replicate n ' ' ∧ 1 ≤ n ∧ n ≤ 8 ∧ 8 ∣ k + n := by
  refine ⟨8 - k % 8, ?_, by omega, by omega, by omega⟩
  simp only [expandTabs, tabWidth, if_true, List.append_nil]

/-- There is one expansion of a line. -/
theorem expands_iff (h : '\n' ∉ line) : Expands line expanded ↔ expanded = expandTabs 0 line := by
  constructor
  · intro hexpands
    induction hexpands with
    | nil => rfl
    | @char line expanded c _ hc ih =>
      rw [List.mem_append, List.mem_singleton, not_or] at h
      rw [expandTabs_append h.1, ← ih h.1, expandTabs, if_neg hc, if_neg (Ne.symm h.2), expandTabs]
    | @tab line expanded n _ hpos hle hdvd ih =>
      rw [List.mem_append, List.mem_singleton, not_or] at h
      obtain ⟨m, htab, hpos', hle', hdvd'⟩ := expandTabs_tab (0 + expanded.length)
      -- between one and eight there is one distance to the next tab stop
      have hn : n = m := by omega
      rw [expandTabs_append h.1, ← ih h.1, htab, hn]
  · rintro rfl
    induction line using List.reverseRecOn with
    | nil => exact .nil
    | append_singleton line c ih =>
      rw [List.mem_append, List.mem_singleton, not_or] at h
      rw [expandTabs_append h.1]
      by_cases hc : c = '\t'
      · obtain ⟨n, htab, hpos, hle, hdvd⟩ := expandTabs_tab (0 + (expandTabs 0 line).length)
        rw [Nat.zero_add] at hdvd
        rw [hc, htab]
        exact .tab (ih h.1) hpos hle hdvd
      · rw [expandTabs, if_neg hc, if_neg (Ne.symm h.2), expandTabs]
        exact .char (ih h.1) hc

theorem forall₂_expands_iff (h : ∀ l ∈ ls, '\n' ∉ l) {ls' : List (List Char)} :
    List.Forall₂ Expands ls ls' ↔ ls' = ls.map (expandTabs 0) := by
  induction ls generalizing ls' with
  | nil => rw [List.forall₂_nil_left_iff, List.map_nil]
  | cons l ls ih =>
    have hl := h l List.mem_cons_self
    have hls : ∀ l ∈ ls, '\n' ∉ l := fun l hl ↦ h l (List.mem_cons_of_mem _ hl)
    rw [List.forall₂_cons_left_iff, List.map_cons]
    constructor
    · rintro ⟨l', rest, hexpands, hrest, rfl⟩
      rw [(expands_iff hl).1 hexpands, (ih hls).1 hrest]
    · rintro rfl
      exact ⟨_, _, (expands_iff hl).2 rfl, (ih hls).2 rfl, rfl⟩

/-- A line feed begins the columns anew, so tabs are expanded line by line. -/
theorem expandTabs_joinLines (ls : List (List Char)) :
    expandTabs 0 (joinLines ls) = joinLines (ls.map (expandTabs 0)) := by
  induction ls with
  | nil => rfl
  | cons l ls ih =>
    rcases eq_or_ne ls [] with rfl | hne
    · rw [List.map_singleton, joinLines, joinLines, List.intercalate_singleton,
        List.intercalate_singleton]
    · have hmap : ls.map (expandTabs 0) ≠ [] := by simpa using hne
      rw [joinLines_cons l hne, expandTabs_append_cons, ih, List.map_cons, joinLines_cons _ hmap]

/-! ### Normal text -/

/-- The lines are all that a normal text keeps. -/
theorem normalChars_eq_joinLines (cs : List Char) :
    normalChars cs = joinLines ((splitLines cs).map (expandTabs 0)) := by
  rw [normalChars, unifyLineEnds_eq_joinLines, expandTabs_joinLines]

theorem normalChars_normalChars (cs : List Char) : normalChars (normalChars cs) = normalChars cs :=
  normalChars_of_plain (fun h ↦ (mem_normalChars h).1 rfl) (fun h ↦ (mem_normalChars h).2.1 rfl)

/-- **A text is normalized by its lines.** To replace line ends and then tabs from left to right is
to cut the text at its line ends, to expand the tabs of each line by itself and to join the lines by
line feeds. The normal text has no tab and no carriage return and is normal. Texts with the same
lines give the same chunks in every way of cutting. -/
theorem normalized_by_lines :
    (∀ s, normalize s = String.ofList (expandTabs 0
        (replaceText ['\r'] ['\n'] (replaceText ['\r', '\n'] ['\n'] s.toList))) ∧
      (∃ ls, (∀ ls', List.Forall₂ Expands (splitLines s.toList) ls' ↔ ls' = ls) ∧
        normalize s = String.ofList (joinLines ls)) ∧
      '\t' ∉ (normalize s).toList ∧ '\r' ∉ (normalize s).toList ∧
      normalize (normalize s) = normalize s) ∧
    ∀ c s s', splitLines s.toList = splitLines s'.toList → chunk c s = chunk c s' := by
  refine ⟨fun s ↦ ⟨?_, ⟨(splitLines s.toList).map (expandTabs 0), fun ls' ↦ ?_, ?_⟩, ?_, ?_, ?_⟩,
    fun c s s' h ↦ ?_⟩
  · rw [normalize, normalChars, unifyLineEnds_eq_replaceText]
  · exact forall₂_expands_iff fun l ↦ notMem_of_mem_splitLines
  · rw [normalize, normalChars_eq_joinLines]
  · rw [normalize, String.toList_ofList]
    exact fun h ↦ (mem_normalChars h).1 rfl
  · rw [normalize, String.toList_ofList]
    exact fun h ↦ (mem_normalChars h).2.1 rfl
  · rw [normalize, normalize, String.toList_ofList, normalChars_normalChars]
  · have hnormal : normalChars s.toList = normalChars s'.toList := by
      rw [normalChars_eq_joinLines, normalChars_eq_joinLines, h]
    simp only [chunk, hnormal]

/-- Two texts with the same four lines, none of whose line ends agree. -/
theorem normalized_by_lines_mixed :
    splitLines "a\r\n\tb\r\r\n".toList = splitLines "a\n\tb\n\r".toList ∧
      chunk .line "a\r\n\tb\r\r\n" = chunk .line "a\n\tb\n\r" := by
  have h : splitLines "a\r\n\tb\r\r\n".toList = splitLines "a\n\tb\n\r".toList := by decide +kernel
  exact ⟨h, normalized_by_lines.2 .line _ _ h⟩

end FragmentParser.Chunking
