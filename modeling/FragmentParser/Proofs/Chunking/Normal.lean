import FragmentParser.Chunking.Normal

/-!
# Normal text goes line by line

Line ends and tabs are made uniform in each line by itself: what stands before a line feed and what
stands behind it are made normal independently (`exists_normalChars_append_cons`). Nothing comes
into a text by this but line feeds and spaces, and no tab and no carriage return is left
(`mem_normalChars`); a text without them is normal as it is (`normalChars_of_plain`).
-/

namespace FragmentParser.Chunking

variable {a cs : List Char} {c : Char} {k : Nat}

/-! ### Line ends -/

theorem mem_unifyLineEnds (h : c ∈ unifyLineEnds cs) : c ≠ '\r' ∧ (c ∈ cs ∨ c = '\n') := by
  fun_induction unifyLineEnds cs with
  | case1 cs ih =>
    rcases List.mem_cons.1 h with rfl | h
    · exact ⟨by decide, .inr rfl⟩
    · exact (ih h).imp_right (.imp_left fun h ↦ List.mem_cons_of_mem _ (List.mem_cons_of_mem _ h))
  | case2 cs _ ih =>
    rcases List.mem_cons.1 h with rfl | h
    · exact ⟨by decide, .inr rfl⟩
    · exact (ih h).imp_right (.imp_left (List.mem_cons_of_mem _))
  | case3 d cs _ hd ih =>
    rcases List.mem_cons.1 h with rfl | h
    · exact ⟨hd, .inl List.mem_cons_self⟩
    · exact (ih h).imp_right (.imp_left (List.mem_cons_of_mem _))
  | case4 => cases h

/-- A text without carriage returns has its line ends already. -/
theorem unifyLineEnds_append (ha : '\r' ∉ a) (cs : List Char) :
    unifyLineEnds (a ++ cs) = a ++ unifyLineEnds cs := by
  induction a with
  | nil => rfl
  | cons d a ih =>
    rw [List.mem_cons, not_or] at ha
    rw [List.cons_append, unifyLineEnds.eq_3 _ _ (fun _ h _ ↦ ha.1 h.symm) (fun h ↦ ha.1 h.symm),
      ih ha.2, List.cons_append]

/-- What stands behind a line feed does not matter before it. -/
theorem exists_unifyLineEnds_append_cons (a : List Char) : ∃ line, ∀ cs,
    unifyLineEnds (a ++ '\n' :: cs) = line ++ '\n' :: unifyLineEnds cs := by
  fun_induction unifyLineEnds a with
  | case1 a ih =>
    obtain ⟨line, h⟩ := ih
    exact ⟨'\n' :: line, fun cs ↦ congrArg ('\n' :: ·) (h cs)⟩
  | case2 a hne ih =>
    obtain ⟨line, h⟩ := ih
    rcases a with _ | ⟨d, a⟩
    · -- the carriage return belongs to the line feed
      exact ⟨[], fun cs ↦ rfl⟩
    · refine ⟨'\n' :: line, fun cs ↦ ?_⟩
      rw [List.cons_append, List.cons_append, unifyLineEnds.eq_2, ← List.cons_append, h,
        List.cons_append]
      intro rest hrest
      exact hne a (by rw [(List.cons.inj hrest).1])
  | case3 d a hreturn hd ih =>
    obtain ⟨line, h⟩ := ih
    refine ⟨d :: line, fun cs ↦ ?_⟩
    rw [List.cons_append, unifyLineEnds.eq_3 _ _ (fun _ h _ ↦ hd h) hd, h, List.cons_append]
  | case4 => exact ⟨[], fun cs ↦ rfl⟩

/-! ### Tabs -/

theorem mem_expandTabs (h : c ∈ expandTabs k cs) : c ≠ '\t' ∧ (c ∈ cs ∨ c = ' ') := by
  induction cs generalizing k with
  | nil => cases h
  | cons d cs ih =>
    rw [expandTabs] at h
    split at h
    · rcases List.mem_append.1 h with h | h
      · obtain rfl := List.eq_of_mem_replicate h
        exact ⟨by decide, .inr rfl⟩
      · exact (ih h).imp_right (.imp_left (List.mem_cons_of_mem _))
    · next htab =>
      split at h
      · next hfeed =>
        rcases List.mem_cons.1 h with rfl | h
        · exact ⟨by decide, .inl (hfeed ▸ List.mem_cons_self)⟩
        · exact (ih h).imp_right (.imp_left (List.mem_cons_of_mem _))
      · rcases List.mem_cons.1 h with rfl | h
        · exact ⟨htab, .inl List.mem_cons_self⟩
        · exact (ih h).imp_right (.imp_left (List.mem_cons_of_mem _))

/-- Columns are counted from the beginning of a line. -/
theorem expandTabs_append_cons (a cs : List Char) :
    expandTabs k (a ++ '\n' :: cs) = expandTabs k a ++ '\n' :: expandTabs 0 cs := by
  induction a generalizing k with
  | nil => rfl
  | cons d a ih =>
    simp only [List.cons_append, expandTabs, ih]
    split
    · rw [List.append_assoc]
    · split <;> rfl

theorem expandTabs_of_notMem (ha : '\t' ∉ a) : expandTabs k a = a := by
  induction a generalizing k with
  | nil => rfl
  | cons d a ih =>
    rw [List.mem_cons, not_or] at ha
    rw [expandTabs, if_neg (Ne.symm ha.1), ih ha.2, ih ha.2]
    split
    · next hfeed => rw [hfeed]
    · rfl

/-! ### Normal text -/

theorem mem_normalChars (h : c ∈ normalChars cs) :
    c ≠ '\t' ∧ c ≠ '\r' ∧ (c ∈ cs ∨ c = '\n' ∨ c = ' ') := by
  obtain ⟨htab, h | rfl⟩ := mem_expandTabs h
  · obtain ⟨hreturn, h⟩ := mem_unifyLineEnds h
    exact ⟨htab, hreturn, h.imp_right .inl⟩
  · exact ⟨htab, by decide, .inr (.inr rfl)⟩

/-- What stands behind a line feed does not matter before it, and the other way round. -/
theorem exists_normalChars_append_cons (a : List Char) : ∃ line, ∀ cs,
    normalChars (a ++ '\n' :: cs) = line ++ '\n' :: normalChars cs := by
  obtain ⟨line, h⟩ := exists_unifyLineEnds_append_cons a
  exact ⟨expandTabs 0 line, fun cs ↦ by rw [normalChars, h, expandTabs_append_cons, normalChars]⟩

/-- Lines without tabs and carriage returns stay as they are. -/
theorem normalChars_append_cons (htab : '\t' ∉ a) (hreturn : '\r' ∉ a) (cs : List Char) :
    normalChars (a ++ '\n' :: cs) = a ++ '\n' :: normalChars cs := by
  rw [normalChars, unifyLineEnds_append hreturn,
    show unifyLineEnds ('\n' :: cs) = '\n' :: unifyLineEnds cs from
      unifyLineEnds_append (a := ['\n']) (by decide) cs,
    expandTabs_append_cons, expandTabs_of_notMem htab, normalChars]

theorem normalChars_of_plain (htab : '\t' ∉ a) (hreturn : '\r' ∉ a) : normalChars a = a := by
  have h := unifyLineEnds_append hreturn []
  rw [List.append_nil, show unifyLineEnds [] = [] from rfl, List.append_nil] at h
  rw [normalChars, h, expandTabs_of_notMem htab]

end FragmentParser.Chunking
