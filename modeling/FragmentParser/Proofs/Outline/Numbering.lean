import FragmentParser.Outline.Numbering
import FragmentParser.Proofs.Text.Pieces
import Mathlib.Data.List.Basic

/-!
# List items and headings as they are written

Reading a chunk as a list item or as a heading is compared with how they are written. A
`WrittenItem` is an ordinal of its style, a mark, spaces and the rest; a `WrittenHeading` is a
number and a tail, and what it means is its number without the periods at its end and its tail
without the blanks at both ends (`WrittenHeading.Means`).

Reading accepts what is written so, nothing else, and a list item is written in one way only
(`readings_iff_written`). Items are read by `numeral_eq_some_iff` and `letter_eq_some_iff`, one for
each reading that is tried, and no text is accepted by two of them: an ordinal has no mark in it, so
that it ends where the mark stands, and digits, Roman letters and other letters are different
characters. For headings the number is a longest run, and `title?_eq_some_iff` reads the tail.
-/

namespace FragmentParser.Outline

open Text

variable {cs : List Char}

/-! ### Ordinals -/

/-- The characters that end an ordinal. -/
def IsMark (c : Char) : Prop := c = '.' ∨ c = ')'

/-- The ordinals of each style. -/
inductive IsOrdinal : ListStyle → List Char → Prop
  /-- Decimal digits, of which the first is not the ASCII zero. -/
  | decimal {c : Char} {cs : List Char} (hdigits : ∀ d ∈ c :: cs, isDigit d = true)
      (hzero : c ≠ '0') : IsOrdinal .decimal (c :: cs)
  /-- Decimal digits after an ASCII zero. -/
  | decimalLeadingZero {cs : List Char} (hdigits : ∀ d ∈ cs, isDigit d = true) :
      IsOrdinal .decimalLeadingZero ('0' :: cs)
  /-- Letters of Roman numerals, of which the first is small. -/
  | lowerRoman {c : Char} {cs : List Char} (hroman : ∀ d ∈ c :: cs, d ∈ "IVXivx".toList)
      (hlower : c.isLower = true) : IsOrdinal .lowerRoman (c :: cs)
  /-- Letters of Roman numerals, of which the first is a capital. -/
  | upperRoman {c : Char} {cs : List Char} (hroman : ∀ d ∈ c :: cs, d ∈ "IVXivx".toList)
      (hupper : c.isUpper = true) : IsOrdinal .upperRoman (c :: cs)
  /-- One other small letter. -/
  | lowerAlpha {c : Char} (hroman : c ∉ "IVXivx".toList) (hlower : c.isLower = true) :
      IsOrdinal .lowerAlpha [c]
  /-- One other capital letter. -/
  | upperAlpha {c : Char} (hroman : c ∉ "IVXivx".toList) (hupper : c.isUpper = true) :
      IsOrdinal .upperAlpha [c]

theorem isRoman_iff {c : Char} : isRoman c = true ↔ c ∈ "IVXivx".toList := by
  rw [isRoman, decide_eq_true_iff]
  rfl

theorem isUpper_iff {c : Char} : c.isUpper = true ↔ 65 ≤ c.toNat ∧ c.toNat ≤ 90 :=
  decide_eq_true_iff

theorem isLower_iff {c : Char} : c.isLower = true ↔ 97 ≤ c.toNat ∧ c.toNat ≤ 122 :=
  Bool.and_eq_true_iff.trans (and_congr decide_eq_true_iff decide_eq_true_iff)

theorem isAlpha_iff {c : Char} : c.isAlpha = true ↔ c.isUpper = true ∨ c.isLower = true :=
  Bool.or_eq_true_iff

/-- No ASCII letter is a decimal digit. -/
theorem isDigit_of_isAlpha {c : Char} (h : c.isAlpha = true) : isDigit c = false := by
  have hc : 65 ≤ c.toNat ∧ c.toNat ≤ 122 := by
    rw [isAlpha_iff, isUpper_iff, isLower_iff] at h
    omega
  have hzeros : ∀ z ∈ digitZeros, z = 0x30 ∨ 0x660 ≤ z := by decide
  rw [isDigit, List.any_eq_false]
  intro z hz
  rw [Bool.and_eq_true, decide_eq_true_iff, decide_eq_true_iff]
  rcases hzeros z hz with rfl | hz <;> omega

theorem isAlpha_of_mem_roman {c : Char} (h : c ∈ "IVXivx".toList) : c.isAlpha = true := by
  have hall : "IVXivx".toList.all Char.isAlpha = true := by decide
  exact List.all_eq_true.1 hall c h

theorem isDigit_of_isMark {c : Char} (h : IsMark c) : isDigit c = false := by
  rcases h with rfl | rfl <;> decide

theorem isRoman_of_isMark {c : Char} (h : IsMark c) : isRoman c = false := by
  rcases h with rfl | rfl <;> decide

theorem IsOrdinal.isDigit_or_isAlpha {style : ListStyle} (h : IsOrdinal style cs) {c : Char}
    (hc : c ∈ cs) : isDigit c = true ∨ c.isAlpha = true := by
  cases h with
  | decimal hdigits hzero => exact .inl (hdigits c hc)
  | decimalLeadingZero hdigits =>
    rcases List.mem_cons.1 hc with rfl | hc
    · exact .inl (by decide)
    · exact .inl (hdigits c hc)
  | lowerRoman hroman hlower => exact .inr (isAlpha_of_mem_roman (hroman c hc))
  | upperRoman hroman hupper => exact .inr (isAlpha_of_mem_roman (hroman c hc))
  | lowerAlpha hroman hlower =>
    rw [List.mem_singleton.1 hc]
    exact .inr (isAlpha_iff.2 (.inr hlower))
  | upperAlpha hroman hupper =>
    rw [List.mem_singleton.1 hc]
    exact .inr (isAlpha_iff.2 (.inl hupper))

/-! ### What is tried in turn -/

/-- After the ordinal stand a mark, all spaces that there are, at least one, and the rest. -/
theorem afterMark_eq_some_iff {rest : List Char} :
    afterMark cs = some rest ↔
      ∃ mark spaces, mark :: (List.replicate spaces ' ' ++ rest) = cs ∧ IsMark mark ∧ 1 ≤ spaces ∧
        rest.head? ≠ some ' ' := by
  constructor
  · intro h
    rw [afterMark.eq_def] at h
    split at h
    · next mark cs =>
      split at h
      · next hmark =>
        obtain ⟨hcs, hspaces, hhead⟩ := takeWhile_dropWhile_eq_iff.1 ⟨rfl, Option.some.inj h⟩
        refine ⟨mark, (cs.takeWhile (· = ' ')).length + 1, ?_, hmark, Nat.le_add_left 1 _, ?_⟩
        · rw [List.replicate_succ, List.cons_append,
            ← List.eq_replicate_iff.2 ⟨rfl, fun c hc ↦ of_decide_eq_true (hspaces c hc)⟩, hcs]
        · exact fun hspace ↦ absurd (hhead ' ' hspace) (by decide)
      · cases h
    · cases h
  · rintro ⟨mark, spaces, rfl, hmark, hspaces, hhead⟩
    obtain ⟨n, rfl⟩ := Nat.exists_eq_add_of_le' hspaces
    have hrun : ∀ c ∈ List.replicate n ' ', decide (c = ' ') = true := fun c hc ↦
      decide_eq_true (List.eq_of_mem_replicate hc)
    have hend : ∀ c ∈ rest.head?, decide (c = ' ') = false := fun c hc ↦
      decide_eq_false fun hspace ↦ hhead (hspace ▸ hc)
    rw [List.replicate_succ, List.cons_append, afterMark, if_pos (show mark = '.' ∨ mark = ')' from hmark),
      (takeWhile_dropWhile_eq_iff.2 ⟨rfl, hrun, hend⟩).2]

theorem isMark_of_afterMark {rest : List Char} (h : afterMark cs = some rest) :
    ∃ mark, cs.head? = some mark ∧ IsMark mark := by
  obtain ⟨mark, spaces, rfl, hmark, -⟩ := afterMark_eq_some_iff.1 h
  exact ⟨mark, rfl, hmark⟩

/-- An ordinal of characters that are no marks ends where the mark stands. -/
theorem numeral_eq_some_iff {p : Char → Bool} (hp : ∀ {c}, IsMark c → p c = false)
    {ordinal rest : List Char} :
    numeral p cs = some (ordinal, rest) ↔
      ∃ after, ordinal ++ after = cs ∧ ordinal ≠ [] ∧ (∀ c ∈ ordinal, p c = true) ∧
        afterMark after = some rest := by
  rw [numeral]
  constructor
  · intro h
    split at h
    · cases h
    · next hne =>
      obtain ⟨rest', hafter, heq⟩ := Option.map_eq_some_iff.1 h
      obtain ⟨rfl, rfl⟩ := Prod.mk.inj heq
      exact ⟨_, List.takeWhile_append_dropWhile, fun hnil ↦ hne (List.isEmpty_iff.2 hnil),
        fun c ↦ List.mem_takeWhile_imp, hafter⟩
  · rintro ⟨after, hcs, hne, hall, hafter⟩
    obtain ⟨mark, hhead, hmark⟩ := isMark_of_afterMark hafter
    have hend : ∀ c ∈ after.head?, p c = false := fun c hc ↦
      hp (Option.some.inj (hhead.symm.trans hc) ▸ hmark)
    obtain ⟨htake, hdrop⟩ := takeWhile_dropWhile_eq_iff.2 ⟨hcs, hall, hend⟩
    rw [htake, hdrop, if_neg fun hnil ↦ hne (List.isEmpty_iff.1 hnil), hafter, Option.map_some]

theorem numeral_eq_none {p : Char → Bool} {c : Char} (hc : p c = false) (cs : List Char) :
    numeral p (c :: cs) = none := by
  rw [numeral, List.takeWhile_cons_of_neg (by simp [hc])]
  rfl

theorem letter_eq_some_iff {ordinal rest : List Char} :
    letter cs = some (ordinal, rest) ↔
      ∃ c after, ordinal = [c] ∧ c :: after = cs ∧ c.isAlpha = true ∧ afterMark after = some rest := by
  constructor
  · intro h
    rw [letter.eq_def] at h
    split at h
    · next c after =>
      split at h
      · next halpha =>
        obtain ⟨rest', hafter, heq⟩ := Option.map_eq_some_iff.1 h
        obtain ⟨rfl, rfl⟩ := Prod.mk.inj heq
        exact ⟨c, after, rfl, rfl, halpha, hafter⟩
      · cases h
    · cases h
  · rintro ⟨c, after, rfl, rfl, halpha, hafter⟩
    rw [letter, if_pos halpha, hafter, Option.map_some]

/-! ### List items -/

section Reading

variable {c : Char} {ds after rest : List Char}

theorem listItem?_of_digits (hdigits : ∀ d ∈ c :: ds, isDigit d = true)
    (hafter : afterMark after = some rest) :
    listItem? (c :: ds ++ after) =
      some ⟨if c = '0' then .decimalLeadingZero else .decimal, c :: ds, rest⟩ := by
  have hnumeral := (numeral_eq_some_iff isDigit_of_isMark).2
    ⟨after, rfl, List.cons_ne_nil c ds, hdigits, hafter⟩
  rw [listItem?, hnumeral, List.cons_append, List.head?_cons]
  simp only [Option.some.injEq]

theorem listItem?_of_roman (hroman : ∀ d ∈ c :: ds, d ∈ "IVXivx".toList)
    (hafter : afterMark after = some rest) :
    listItem? (c :: ds ++ after) =
      some ⟨if c.isLower then .lowerRoman else .upperRoman, c :: ds, rest⟩ := by
  have hdigit := isDigit_of_isAlpha (isAlpha_of_mem_roman (hroman c List.mem_cons_self))
  have hnumeral := (numeral_eq_some_iff isRoman_of_isMark).2
    ⟨after, rfl, List.cons_ne_nil c ds, fun d hd ↦ isRoman_iff.2 (hroman d hd), hafter⟩
  rw [listItem?, List.cons_append, numeral_eq_none hdigit, ← List.cons_append, hnumeral]
  rfl

theorem listItem?_of_letter (hroman : c ∉ "IVXivx".toList) (halpha : c.isAlpha = true)
    (hafter : afterMark after = some rest) :
    listItem? (c :: after) =
      some ⟨if c.isLower then .lowerAlpha else .upperAlpha, [c], rest⟩ := by
  have hdigit := isDigit_of_isAlpha halpha
  have hnone : isRoman c = false := Bool.eq_false_iff.2 fun hc ↦ hroman (isRoman_iff.1 hc)
  have hletter := letter_eq_some_iff.2 ⟨c, after, rfl, rfl, halpha, hafter⟩
  rw [listItem?, numeral_eq_none hdigit, numeral_eq_none hnone, hletter]
  rfl

/-- What reading tries in turn: digits, Roman letters, one letter that is not Roman. -/
theorem listItem?_cases {item : ListItem} (h : listItem? cs = some item) :
    ∃ c ds after, c :: ds ++ after = cs ∧ afterMark after = some item.rest ∧
      ((∀ d ∈ c :: ds, isDigit d = true) ∨ (∀ d ∈ c :: ds, d ∈ "IVXivx".toList) ∨
        ds = [] ∧ c ∉ "IVXivx".toList ∧ c.isAlpha = true) := by
  rw [listItem?] at h
  split at h
  · next ordinal rest hnumeral =>
    cases h
    obtain ⟨after, rfl, hne, hdigits, hafter⟩ := (numeral_eq_some_iff isDigit_of_isMark).1 hnumeral
    obtain ⟨c, ds, rfl⟩ := List.exists_cons_of_ne_nil hne
    exact ⟨c, ds, after, rfl, hafter, .inl hdigits⟩
  · split at h
    · next ordinal rest hnumeral =>
      cases h
      obtain ⟨after, rfl, hne, hroman, hafter⟩ :=
        (numeral_eq_some_iff isRoman_of_isMark).1 hnumeral
      obtain ⟨c, ds, rfl⟩ := List.exists_cons_of_ne_nil hne
      exact ⟨c, ds, after, rfl, hafter, .inr (.inl fun d hd ↦ isRoman_iff.1 (hroman d hd))⟩
    · next hnone =>
      obtain ⟨⟨ordinal, rest⟩, hletter, rfl⟩ := Option.map_eq_some_iff.1 h
      obtain ⟨c, after, rfl, rfl, halpha, hafter⟩ := letter_eq_some_iff.1 hletter
      refine ⟨c, [], after, rfl, hafter, .inr (.inr ⟨rfl, fun hc ↦ ?_, halpha⟩)⟩
      have hone : ∀ d ∈ [c], isRoman d = true := fun d hd ↦
        List.mem_singleton.1 hd ▸ isRoman_iff.2 hc
      have hsome := (numeral_eq_some_iff isRoman_of_isMark).2
        ⟨after, rfl, List.cons_ne_nil c [], hone, hafter⟩
      exact Option.some_ne_none _ (hsome.symm.trans hnone)

end Reading

/-- A capital letter is not small. -/
theorem not_isLower_of_isUpper {c : Char} (h : c.isUpper = true) : ¬c.isLower = true := by
  rw [isUpper_iff] at h
  rw [isLower_iff]
  omega

theorem isUpper_of_isAlpha {c : Char} (h : c.isAlpha = true) (hlower : ¬c.isLower = true) :
    c.isUpper = true :=
  (isAlpha_iff.1 h).resolve_right hlower

theorem isOrdinal_of_digits {c : Char} {ds : List Char} (h : ∀ d ∈ c :: ds, isDigit d = true) :
    IsOrdinal (if c = '0' then .decimalLeadingZero else .decimal) (c :: ds) := by
  split
  · next hzero =>
    subst hzero
    exact .decimalLeadingZero fun d hd ↦ h d (List.mem_cons_of_mem _ hd)
  · next hzero => exact .decimal h hzero

theorem isOrdinal_of_roman {c : Char} {ds : List Char} (h : ∀ d ∈ c :: ds, d ∈ "IVXivx".toList) :
    IsOrdinal (if c.isLower then .lowerRoman else .upperRoman) (c :: ds) := by
  split
  · next hlower => exact .lowerRoman h hlower
  · next hlower =>
    have halpha := isAlpha_of_mem_roman (h c List.mem_cons_self)
    exact .upperRoman h (isUpper_of_isAlpha halpha hlower)

theorem isOrdinal_of_letter {c : Char} (hroman : c ∉ "IVXivx".toList) (h : c.isAlpha = true) :
    IsOrdinal (if c.isLower then .lowerAlpha else .upperAlpha) [c] := by
  split
  · next hlower => exact .lowerAlpha hroman hlower
  · next hlower => exact .upperAlpha hroman (isUpper_of_isAlpha h hlower)

/-- Reading accepts an ordinal and what may follow it. -/
theorem listItem?_eq_some_iff {item : ListItem} :
    listItem? cs = some item ↔
      ∃ after, item.ordinal ++ after = cs ∧ IsOrdinal item.style item.ordinal ∧
        afterMark after = some item.rest := by
  constructor
  · intro h
    obtain ⟨c, ds, after, rfl, hafter, hdigits | hroman | ⟨rfl, hroman, halpha⟩⟩ := listItem?_cases h
    · rw [listItem?_of_digits hdigits hafter] at h
      exact Option.some.inj h ▸ ⟨after, rfl, isOrdinal_of_digits hdigits, hafter⟩
    · rw [listItem?_of_roman hroman hafter] at h
      exact Option.some.inj h ▸ ⟨after, rfl, isOrdinal_of_roman hroman, hafter⟩
    · rw [List.cons_append, List.nil_append, listItem?_of_letter hroman halpha hafter] at h
      exact Option.some.inj h ▸ ⟨after, rfl, isOrdinal_of_letter hroman halpha, hafter⟩
  · obtain ⟨style, ordinal, rest⟩ := item
    rintro ⟨after, rfl, hordinal, hafter⟩
    cases hordinal with
    | decimal hdigits hzero => rw [listItem?_of_digits hdigits hafter, if_neg hzero]
    | decimalLeadingZero hdigits =>
      have hall : ∀ d ∈ '0' :: _, isDigit d = true := List.forall_mem_cons.2 ⟨by decide, hdigits⟩
      rw [listItem?_of_digits hall hafter, if_pos rfl]
    | lowerRoman hroman hlower => rw [listItem?_of_roman hroman hafter, if_pos hlower]
    | upperRoman hroman hupper =>
      rw [listItem?_of_roman hroman hafter, if_neg (not_isLower_of_isUpper hupper)]
    | @lowerAlpha c hroman hlower =>
      have halpha := isAlpha_iff.2 (.inr hlower)
      exact (listItem?_of_letter hroman halpha hafter).trans (by rw [if_pos hlower])
    | @upperAlpha c hroman hupper =>
      have halpha := isAlpha_iff.2 (.inl hupper)
      exact (listItem?_of_letter hroman halpha hafter).trans
        (by rw [if_neg (not_isLower_of_isUpper hupper)])

/-- A list item as it is written: an ordinal, a mark, spaces and the rest. -/
structure WrittenItem where
  /-- The item that is written. -/
  item : ListItem
  /-- The character after the ordinal. -/
  mark : Char
  /-- How many spaces follow the mark. -/
  spaces : Nat
  isOrdinal : IsOrdinal item.style item.ordinal
  isMark : IsMark mark
  spaces_pos : 1 ≤ spaces
  head?_rest_ne : item.rest.head? ≠ some ' '

/-- The characters of a written item. -/
def WrittenItem.chars (w : WrittenItem) : List Char :=
  w.item.ordinal ++ w.mark :: (List.replicate w.spaces ' ' ++ w.item.rest)

theorem listItem?_eq_some_iff_written {item : ListItem} :
    listItem? cs = some item ↔ ∃ w : WrittenItem, w.chars = cs ∧ w.item = item := by
  rw [listItem?_eq_some_iff]
  constructor
  · rintro ⟨after, rfl, hordinal, hafter⟩
    obtain ⟨mark, spaces, rfl, hmark, hspaces, hrest⟩ := afterMark_eq_some_iff.1 hafter
    exact ⟨⟨item, mark, spaces, hordinal, hmark, hspaces, hrest⟩, rfl, rfl⟩
  · rintro ⟨w, rfl, rfl⟩
    have hafter := afterMark_eq_some_iff.2
      ⟨w.mark, w.spaces, rfl, w.isMark, w.spaces_pos, w.head?_rest_ne⟩
    exact ⟨_, rfl, w.isOrdinal, hafter⟩

/-- What is written in one way is read in one way, and mark and spaces are what is left. -/
theorem WrittenItem.chars_injective : Function.Injective WrittenItem.chars := by
  intro v w h
  have hv := listItem?_eq_some_iff_written.2 ⟨v, h, rfl⟩
  have hw := listItem?_eq_some_iff_written.2 ⟨w, rfl, rfl⟩
  obtain ⟨item, mark, spaces⟩ := v
  obtain ⟨item', mark', spaces'⟩ := w
  obtain rfl : item = item' := Option.some.inj (hv.symm.trans hw)
  obtain ⟨rfl, hspaces⟩ := List.cons_eq_cons.1 (List.append_cancel_left h)
  have hreplicate := List.append_cancel_right hspaces
  obtain rfl : spaces = spaces' := by
    rw [← @List.length_replicate _ spaces ' ', hreplicate, List.length_replicate]
  rfl

/-! ### Headings -/

/-- What follows the number of a heading: it begins with a space, has something besides, does not
end with a period, and a line feed is at most its last character. -/
structure IsTail (cs : List Char) : Prop where
  head?_eq : cs.head? = some ' '
  two_le_length : 2 ≤ cs.length
  getLast?_ne : cs.getLast? ≠ some '.'
  notMem_dropLast : '\n' ∉ cs.dropLast

theorem isTail_replicate_iff {n : Nat} : IsTail (List.replicate n ' ') ↔ 2 ≤ n := by
  constructor
  · intro h
    simpa using h.two_le_length
  · intro h
    obtain ⟨m, rfl⟩ := Nat.exists_eq_add_of_le' h
    refine ⟨rfl, by simp, fun hlast ↦ ?_, fun hmem ↦ ?_⟩
    · exact absurd (List.eq_of_mem_replicate (List.mem_of_getLast? hlast)) (by decide)
    · exact absurd (List.eq_of_mem_replicate ((List.dropLast_sublist _).subset hmem)) (by decide)

theorem isTail_append_iff {spaces title : List Char} (hspaces : ∀ c ∈ spaces, c = ' ')
    (hne : title ≠ []) (hhead : title.head? ≠ some ' ') :
    IsTail (spaces ++ title) ↔
      1 ≤ spaces.length ∧ title.getLast? ≠ some '.' ∧ '\n' ∉ title.dropLast := by
  have hlast : (spaces ++ title).getLast? = title.getLast? := List.getLast?_append_of_ne_nil _ hne
  have hdrop : (spaces ++ title).dropLast = spaces ++ title.dropLast :=
    List.dropLast_append_of_ne_nil hne
  constructor
  · intro h
    refine ⟨?_, hlast ▸ h.getLast?_ne, fun hmem ↦ h.notMem_dropLast ?_⟩
    · rcases spaces with _ | ⟨c, spaces⟩
      · exact absurd h.head?_eq hhead
      · simp
    · rw [hdrop]
      exact List.mem_append_right spaces hmem
  · rintro ⟨hlength, hperiod, hfeed⟩
    obtain ⟨c, spaces, rfl⟩ := List.exists_cons_of_length_pos hlength
    refine ⟨congrArg some (hspaces c List.mem_cons_self), ?_, hlast ▸ hperiod, ?_⟩
    · have := List.length_pos_iff.2 hne
      simp only [List.length_append, List.length_cons]
      omega
    · rw [hdrop, List.mem_append]
      rintro (hmem | hmem)
      · exact absurd (hspaces _ hmem) (by decide)
      · exact hfeed hmem

/-- All spaces are read before the title, which leaves nothing for it when there are only spaces. -/
theorem title?_eq_some_iff {title : List Char} :
    title? cs = some title ↔ IsTail cs ∧ trim cs = title := by
  obtain ⟨hcs, hspaces, hhead⟩ := takeWhile_dropWhile_eq_iff.1
    (⟨rfl, rfl⟩ : cs.takeWhile (· = ' ') = _ ∧ cs.dropWhile (· = ' ') = _)
  rw [title?]
  generalize cs.takeWhile (· = ' ') = spaces at hcs hspaces ⊢
  generalize cs.dropWhile (· = ' ') = rest at hcs hhead ⊢
  subst hcs
  have hspace : ∀ c ∈ spaces, c = ' ' := fun c hc ↦ of_decide_eq_true (hspaces c hc)
  have hblank : ∀ c ∈ spaces, isBlank c = true := fun c hc ↦ hspace c hc ▸ rfl
  rw [trim_append_of_blank hblank]
  rcases rest with _ | ⟨d, rest⟩
  · rw [List.append_nil, List.eq_replicate_iff.2 ⟨rfl, hspace⟩, isTail_replicate_iff]
    simp [trim, trimEnd, dropEndWhile]
  · have hd : (d :: rest).head? ≠ some ' ' := fun hc ↦
      of_decide_eq_false (hhead d rfl) (Option.some.inj hc)
    rw [isTail_append_iff hspace (List.cons_ne_nil d rest) hd]
    simp

/-- A heading as it is written: a number, which begins with a digit and goes on with digits and
periods, and a tail. -/
structure WrittenHeading where
  /-- The first digit. -/
  digit : Char
  /-- The other characters of the number. -/
  others : List Char
  /-- What follows the number. -/
  tail : List Char
  isDigit_digit : isDigit digit = true
  isDigit_others : ∀ c ∈ others, c = '.' ∨ isDigit c = true
  isTail : IsTail tail

namespace WrittenHeading

/-- The characters of a written heading. -/
def chars (w : WrittenHeading) : List Char := w.digit :: w.others ++ w.tail

theorem getLast?_chars (w : WrittenHeading) : w.chars.getLast? = w.tail.getLast? := by
  have hne : w.tail ≠ [] := fun hnil ↦ by simpa [hnil] using w.isTail.head?_eq
  exact List.getLast?_append_of_ne_nil _ hne

/-- What a written heading means: its number without the periods at its end, and its tail without
the blanks at both ends. -/
structure Means (w : WrittenHeading) (h : Heading) : Prop where
  ordinal_append : ∃ n, h.ordinal ++ List.replicate n '.' = w.digit :: w.others
  getLast?_ordinal_ne : h.ordinal.getLast? ≠ some '.'
  title_between : ∃ before after, before ++ h.title ++ after = w.tail ∧
    ∀ c ∈ before ++ after, isBlank c = true
  head?_title : ∀ c ∈ h.title.head?, isBlank c = false
  getLast?_title : ∀ c ∈ h.title.getLast?, isBlank c = false

theorem means_iff {w : WrittenHeading} {h : Heading} :
    w.Means h ↔ dropEndWhile (· = '.') (w.digit :: w.others) = h.ordinal ∧ trim w.tail = h.title := by
  rw [dropEndWhile_eq_iff, trim_eq_iff]
  constructor
  · rintro ⟨⟨n, hn⟩, hordinal, ⟨before, after, htail, hblank⟩, hhead, hlast⟩
    exact ⟨⟨_, hn, fun c hc ↦ decide_eq_true (List.eq_of_mem_replicate hc), fun c hc ↦
      decide_eq_false fun hperiod ↦ hordinal (hperiod ▸ hc)⟩, before, after, htail, hblank, hhead, hlast⟩
  · rintro ⟨⟨back, hback, hperiods, hordinal⟩, before, after, htail, hblank, hhead, hlast⟩
    have hreplicate : back = List.replicate back.length '.' :=
      List.eq_replicate_iff.2 ⟨rfl, fun c hc ↦ of_decide_eq_true (hperiods c hc)⟩
    exact ⟨⟨_, hreplicate ▸ hback⟩, fun hlast ↦ absurd (hordinal _ hlast) (by decide),
      ⟨before, after, htail, hblank⟩, hhead, hlast⟩

end WrittenHeading

theorem heading?_eq_some_iff_written {h : Heading} :
    heading? cs = some h ↔ ∃ w : WrittenHeading, w.chars = cs ∧ w.Means h := by
  constructor
  · intro hread
    rw [heading?] at hread
    split at hread
    · next hhead =>
      obtain ⟨digit, hdigit, hisDigit⟩ := (Option.any_eq_true _ _).1 hhead
      obtain ⟨rest, rfl⟩ := List.head?_eq_some_iff.1 hdigit
      have hnumber : isNumberChar digit = true := by rw [isNumberChar, hisDigit, Bool.or_true]
      obtain ⟨title, htitle, rfl⟩ := Option.map_eq_some_iff.1 hread
      rw [List.takeWhile_cons_of_pos hnumber]
      rw [List.dropWhile_cons_of_pos hnumber] at htitle
      obtain ⟨htail, htrim⟩ := title?_eq_some_iff.1 htitle
      refine ⟨⟨digit, rest.takeWhile isNumberChar, _, hisDigit, fun c hc ↦ ?_, htail⟩, ?_,
        WrittenHeading.means_iff.2 ⟨rfl, htrim⟩⟩
      · simpa [isNumberChar] using List.mem_takeWhile_imp hc
      · rw [WrittenHeading.chars, List.cons_append, List.takeWhile_append_dropWhile]
    · cases hread
  · rintro ⟨w, rfl, hmeans⟩
    obtain ⟨hordinal, htitle⟩ := WrittenHeading.means_iff.1 hmeans
    have hnumber : ∀ c ∈ w.digit :: w.others, isNumberChar c = true := by
      refine List.forall_mem_cons.2 ⟨?_, fun c hc ↦ ?_⟩
      · rw [isNumberChar, w.isDigit_digit, Bool.or_true]
      · simpa [isNumberChar] using w.isDigit_others c hc
    have hspace : ∀ c ∈ w.tail.head?, isNumberChar c = false := by
      intro c hc
      obtain rfl := Option.some.inj (w.isTail.head?_eq.symm.trans hc)
      decide
    obtain ⟨htake, hdrop⟩ := takeWhile_dropWhile_eq_iff.2 ⟨rfl, hnumber, hspace⟩
    have hany : (w.digit :: w.others ++ w.tail).head?.any isDigit = true := w.isDigit_digit
    rw [heading?, WrittenHeading.chars, if_pos hany, hdrop, htake,
      title?_eq_some_iff.2 ⟨w.isTail, htitle⟩, Option.map_some, hordinal]

/-- A number has a part that is not empty: the one with its first digit. -/
theorem WrittenHeading.Means.one_le_parts {w : WrittenHeading} {h : Heading} (hmeans : w.Means h) :
    1 ≤ ((h.ordinal.splitOn '.').filter (!·.isEmpty)).length := by
  obtain ⟨n, hn⟩ := hmeans.ordinal_append
  have hdigit : w.digit ≠ '.' := fun hperiod ↦
    absurd (hperiod ▸ w.isDigit_digit) (by decide)
  obtain ⟨ds, hds⟩ : ∃ ds, h.ordinal = w.digit :: ds := by
    rcases hcs : h.ordinal with _ | ⟨c, ds⟩
    · rw [hcs, List.nil_append] at hn
      have hmem : w.digit ∈ List.replicate n '.' := hn ▸ List.mem_cons_self
      exact absurd (List.eq_of_mem_replicate hmem) hdigit
    · rw [hcs, List.cons_append] at hn
      exact ⟨ds, by rw [(List.cons_eq_cons.1 hn).1]⟩
  rw [hds, List.splitOn_eq_splitOnP, List.splitOnP_cons_eq_if_modifyHead, if_neg (by simpa using hdigit)]
  obtain ⟨part, parts, hparts⟩ := List.exists_cons_of_ne_nil (List.splitOnP_ne_nil (· == '.') ds)
  rw [hparts, List.modifyHead_cons, List.filter_cons_of_pos rfl, List.length_cons]
  exact Nat.le_add_left 1 _

/-- Reading a text as a list item or a heading accepts exactly what is written as one, a list item
is written in one way only, and the depth of a heading, which is at least one, is how many of the
parts between the periods of its number are not empty. -/
theorem readings_iff_written (cs : List Char) :
    (∀ item, listItem? cs = some item ↔ ∃ w : WrittenItem, w.chars = cs ∧ w.item = item) ∧
      Function.Injective WrittenItem.chars ∧
      (∀ h, heading? cs = some h ↔ ∃ w : WrittenHeading, w.chars = cs ∧ w.Means h) ∧
      ∀ depth, sectionDepth? cs = some depth ↔
        1 ≤ depth ∧ ∃ (w : WrittenHeading) (h : Heading), w.chars = cs ∧ w.Means h ∧
          ((h.ordinal.splitOn '.').filter (!·.isEmpty)).length = depth := by
  refine ⟨fun item ↦ listItem?_eq_some_iff_written, WrittenItem.chars_injective,
    fun h ↦ heading?_eq_some_iff_written, fun depth ↦ ?_⟩
  rw [sectionDepth?, Option.map_eq_some_iff]
  constructor
  · rintro ⟨h, hread, rfl⟩
    obtain ⟨w, hchars, hmeans⟩ := heading?_eq_some_iff_written.1 hread
    exact ⟨hmeans.one_le_parts, w, h, hchars, hmeans, rfl⟩
  · rintro ⟨-, w, h, hchars, hmeans, rfl⟩
    exact ⟨h, heading?_eq_some_iff_written.2 ⟨w, hchars, hmeans⟩, rfl⟩

end FragmentParser.Outline
