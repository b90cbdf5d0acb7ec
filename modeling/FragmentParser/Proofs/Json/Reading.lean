import FragmentParser.Proofs.Json.Grammar
import FragmentParser.Proofs.Text.Pieces

/-!
# The reader reads every JSON text

Whatever text the grammar has for a value (`Json.IsText`), the reader gives the value back and
leaves what follows (`Reader.value_of_isText`). One lemma for each part of the grammar says so of
the reader of the part. A number is read as far as it goes, so what follows must not go on with it;
behind a value there is always a gap, a comma, a bracket or the end, and none of these does
(`Reader.EndsNumber`).

The loops over characters, items and fields have a bound, which is above the length of the text.
Each round takes at least one character, so the bound is never used up.
-/

namespace FragmentParser.Json.Reader

/-! ### Gaps -/

theorem skipSpace_append {a : List Char} (ha : IsGap a) (cs : List Char) :
    skipSpace (a ++ cs) = skipSpace cs :=
  List.dropWhile_append_of_pos ha

theorem skipSpace_cons {c : Char} (hc : isSpace c = false) (cs : List Char) :
    skipSpace (c :: cs) = c :: cs := by
  rw [skipSpace, List.dropWhile_cons_of_neg (by simp [hc])]

theorem expect_append (ws cs : List Char) : expect ws (ws ++ cs) = .ok cs := by
  induction ws with
  | nil => rfl
  | cons w ws ih => rw [List.cons_append, expect, if_pos rfl, ih]

/-! ### Texts between quotes -/

theorem codeUnit_of_unitText {n : Nat} {cs : List Char} (h : UnitText n cs) (rest : List Char) :
    codeUnit (cs ++ rest) = .ok (n, rest) := by
  cases h with
  | @digits a b c d w x y z ha hb hc hd =>
    have hsize : ¬(String.ofList [a, b, c, d]).utf8ByteSize < 4 := by
      have hpos := And.intro a.utf8Size_pos
        (And.intro b.utf8Size_pos (And.intro c.utf8Size_pos d.utf8Size_pos))
      simp only [String.ofList, String.utf8ByteSize, List.utf8Encode, List.flatMap_cons,
        List.flatMap_nil, List.append_nil, List.size_toByteArray, List.length_append,
        String.length_utf8EncodeChar]
      omega
    simp only [codeUnit, List.cons_append, List.nil_append, List.take_succ_cons, List.take_zero,
      if_neg hsize, ha, hb, hc, hd]

/-- A character that is written with a backslash is read behind the backslash. -/
theorem escaped_of_short {e c : Char} (h : (e, c) ∈ shortEscapes) (rest : List Char) :
    escaped (e :: rest) = .ok (c, rest) := by
  simp only [shortEscapes, List.mem_cons, List.not_mem_nil, or_false, Prod.mk.injEq] at h
  rcases h with ⟨rfl, rfl⟩ | ⟨rfl, rfl⟩ | ⟨rfl, rfl⟩ | ⟨rfl, rfl⟩ | ⟨rfl, rfl⟩ | ⟨rfl, rfl⟩ |
    ⟨rfl, rfl⟩ | ⟨rfl, rfl⟩ <;> rfl

theorem codePoint_of_unit {n : Nat} {cs : List Char} (h : UnitText n cs)
    (hleading : isLeading n = false) (htrailing : isTrailing n = false) (rest : List Char) :
    codePoint (cs ++ rest) = .ok (Char.ofNat n, rest) := by
  simp [codePoint, codeUnit_of_unitText h, hleading, htrailing, bind, Except.bind]

/-- No code unit is both halves of a pair. -/
theorem isTrailing_of_isLeading {n : Nat} (h : isLeading n = true) : isTrailing n = false := by
  simp only [isLeading, Bool.and_eq_true, decide_eq_true_eq] at h
  simp only [isTrailing, Bool.and_eq_false_iff, decide_eq_false_iff_not]
  omega

theorem codePoint_of_pair {n m : Nat} {cs ds : List Char} (hn : UnitText n cs) (hm : UnitText m ds)
    (hleading : isLeading n = true) (htrailing : isTrailing m = true) (rest : List Char) :
    codePoint (cs ++ '\\' :: 'u' :: (ds ++ rest)) =
      .ok (Char.ofNat (0x10000 + (n - 0xD800) * 0x400 + (m - 0xDC00)), rest) := by
  have hexpect : expect ['\\', 'u'] ('\\' :: 'u' :: (ds ++ rest)) = .ok (ds ++ rest) :=
    expect_append ['\\', 'u'] _
  simp [codePoint, codeUnit_of_unitText hn, codeUnit_of_unitText hm, hexpect, hleading, htrailing,
    isTrailing_of_isLeading hleading, bind, Except.bind]

/-- One character is read in one round. -/
theorem textChars_of_charText {c : Char} {cs : List Char} (h : CharText c cs) (bound : Nat)
    (rest : List Char) :
    textChars (bound + 1) (cs ++ rest) =
      (textChars bound rest).map fun (text, rest) ↦ (c :: text, rest) := by
  have hescape : ∀ {cs rest : List Char}, escaped cs = .ok (c, rest) →
      textChars (bound + 1) ('\\' :: cs) =
        (textChars bound rest).map fun (text, rest) ↦ (c :: text, rest) := by
    intro cs rest he
    rw [textChars, he]
    show (textChars bound rest >>= fun read ↦ .ok (c :: read.1, read.2)) = _
    cases textChars bound rest <;> rfl
  cases h with
  | plain hc hquote hslash =>
    rw [List.singleton_append, textChars, if_neg (Nat.not_lt.2 hc)]
    · cases textChars bound rest <;> rfl
    · exact fun h ↦ hquote h
    · exact fun h ↦ hslash h
  | short he => exact hescape (escaped_of_short he rest)
  | unit hn hleading htrailing => exact hescape (codePoint_of_unit hn hleading htrailing rest)
  | @pair n m cs ds hn hm hleading htrailing =>
    rw [List.cons_append, List.cons_append, List.append_assoc, List.cons_append, List.cons_append]
    exact hescape (codePoint_of_pair hn hm hleading htrailing rest)

theorem textChars_of_charsText {s cs : List Char} (h : CharsText s cs) {bound : Nat}
    (hbound : cs.length < bound) (rest : List Char) :
    textChars bound (cs ++ '"' :: rest) = .ok (s, rest) := by
  induction h generalizing bound with
  | nil =>
    obtain ⟨bound, rfl⟩ := Nat.exists_eq_succ_of_ne_zero (Nat.ne_of_gt hbound)
    rfl
  | @cons c s cs ds hc _ ih =>
    obtain ⟨bound, rfl⟩ := Nat.exists_eq_succ_of_ne_zero (Nat.ne_of_gt (Nat.zero_lt_of_lt hbound))
    have hpos : 0 < cs.length := by
      cases hc <;> simp
    rw [List.length_append] at hbound
    rw [List.append_assoc, textChars_of_charText hc, ih (by omega)]
    rfl

theorem quoted_of_quotedText {s : String} {cs : List Char} (h : QuotedText s ('"' :: cs))
    (rest : List Char) : quoted (cs ++ rest) = .ok (s, rest) := by
  cases h with
  | @quoted s cs hs =>
    have hlength : cs.length < (cs ++ ['"'] ++ rest).length + 1 := by
      simp only [List.length_append]
      omega
    have hread := textChars_of_charsText hs hlength rest
    rw [quoted, List.append_assoc, List.singleton_append] at *
    rw [hread]
    rfl

/-! ### Numbers -/

/-- What follows a number and does not go on with it. -/
def EndsNumber (rest : List Char) : Prop :=
  ∀ c ∈ rest.head?, c.isDigit = false ∧ c ≠ '.' ∧ c ≠ 'e' ∧ c ≠ 'E'

theorem digits_append {ds rest : List Char} (hds : IsDigits ds)
    (hrest : ∀ c ∈ rest.head?, c.isDigit = false) : digits (ds ++ rest) = .ok (ds, rest) := by
  obtain ⟨hne, hdigits⟩ := hds
  obtain ⟨htake, hdrop⟩ := Text.takeWhile_dropWhile_eq_iff.2 ⟨rfl, hdigits, hrest⟩
  obtain ⟨c, ds', rfl⟩ := List.exists_cons_of_ne_nil hne
  rw [List.cons_append] at htake hdrop ⊢
  rw [digits, if_pos (hdigits c List.mem_cons_self), htake, hdrop]

theorem wholePart_append {ds rest : List Char} (hds : IsDigits ds)
    (hzero : ds.head? = some '0' → ds.length = 1) (hrest : ∀ c ∈ rest.head?, c.isDigit = false) :
    wholePart (ds ++ rest) = .ok (ds, rest) := by
  have hproper : ¬(ds.head? = some '0' ∧ ds.length ≠ 1) := fun h ↦ h.2 (hzero h.1)
  simp [wholePart, digits_append hds hrest, hproper, bind, Except.bind]

theorem fractionPart_append {ds fs rest : List Char} (h : FractionText ds fs)
    (hrest : ∀ c ∈ rest.head?, c.isDigit = false ∧ c ≠ '.') :
    fractionPart (fs ++ rest) = .ok (ds, rest) := by
  cases h with
  | none =>
    rcases rest with _ | ⟨c, rest⟩
    · rfl
    · rw [List.nil_append, fractionPart]
      intro cs hc
      exact (hrest c rfl).2 (List.cons.inj hc).1
  | some hds => exact digits_append hds fun c hc ↦ (hrest c hc).1

theorem exponentPart_append {e : Option Int} {es rest : List Char} (h : ExponentText e es)
    (hrest : EndsNumber rest) : exponentPart (es ++ rest) = .ok (e, rest) := by
  cases h with
  | none =>
    rcases rest with _ | ⟨c, rest⟩
    · rfl
    · obtain ⟨-, -, he, hE⟩ := hrest c rfl
      unfold exponentPart
      exact if_neg (by simp [he, hE])
  | @some e negative sign ds he hsign hds =>
    have hmark : e = 'e' ∨ e = 'E' := by simpa using he
    have hdigits := digits_append hds fun c hc ↦ (hrest c hc).1
    unfold exponentPart
    rw [List.cons_append, List.append_assoc]
    refine (if_pos hmark).trans ?_
    cases hsign with
    | none =>
      -- without a sign a digit follows
      obtain ⟨hne, hall⟩ := hds
      obtain ⟨c, ds, rfl⟩ := List.exists_cons_of_ne_nil hne
      have hc := hall c List.mem_cons_self
      rw [List.nil_append]
      split
      · next heq =>
        split at heq
        · next hplus =>
          obtain ⟨rfl, -⟩ := List.cons.inj hplus
          exact absurd hc (by decide)
        · next hminus =>
          obtain ⟨rfl, -⟩ := List.cons.inj hminus
          exact absurd hc (by decide)
        · cases heq
          rw [hdigits]
          rfl
    | plus =>
      show (digits (ds ++ rest) >>= _) = _
      rw [hdigits]
      rfl
    | minus =>
      show (digits (ds ++ rest) >>= _) = _
      rw [hdigits]
      rfl

theorem number_of_numeralText {v : Numeral} {cs rest : List Char} (h : NumeralText v cs)
    (hfinite : v.toDouble.isInfinite = false) (hrest : EndsNumber rest) :
    ∃ ds, cs = (if v.negative then ['-'] else []) ++ ds ∧
      (∃ c ds', ds = c :: ds' ∧ c.isDigit = true) ∧
      number v.negative (ds ++ rest) = .ok (.number v, rest) := by
  cases h with
  | @numeral negative whole fraction fs es exponent hwhole hzero hfs hes =>
    refine ⟨whole ++ (fs ++ es), rfl, ?_, ?_⟩
    · obtain ⟨c, ds, rfl⟩ := List.exists_cons_of_ne_nil hwhole.1
      exact ⟨c, ds ++ (fs ++ es), rfl, hwhole.2 c List.mem_cons_self⟩
    · -- each part ends where the next one begins
      have hexponent : ∀ c ∈ (es ++ rest).head?, c.isDigit = false ∧ c ≠ '.' := by
        cases hes with
        | none => exact fun c hc ↦ ⟨(hrest c hc).1, (hrest c hc).2.1⟩
        | some he =>
          intro c hc
          obtain rfl := Option.some.inj hc
          simp only [List.mem_cons, List.not_mem_nil, or_false] at he
          rcases he with rfl | rfl <;> decide
      have hfraction : ∀ c ∈ (fs ++ (es ++ rest)).head?, c.isDigit = false := by
        cases hfs with
        | none => exact fun c hc ↦ (hexponent c hc).1
        | some =>
          intro c hc
          obtain rfl := Option.some.inj hc
          rfl
      simp only [number, List.append_assoc, wholePart_append hwhole hzero hfraction,
        fractionPart_append hfs hexponent, exponentPart_append hes hrest, bind, Except.bind]
      rw [if_neg (by simpa using hfinite)]

/-! ### Arrays and objects -/

/-- A gap and what closes a list or goes on with it do not go on with a number. -/
theorem endsNumber_append {b : List Char} (hb : IsGap b) {c : Char} (hc : c ∈ [',', ']', '\x7d'])
    (rest : List Char) : EndsNumber (b ++ c :: rest) := by
  intro d hd
  rcases b with _ | ⟨d', b⟩
  · obtain rfl := Option.some.inj hd
    simp only [List.mem_cons, List.not_mem_nil, or_false] at hc
    rcases hc with rfl | rfl | rfl <;> decide
  · obtain rfl := Option.some.inj hd
    have hspace := hb d' List.mem_cons_self
    simp only [isSpace, Bool.or_eq_true, decide_eq_true_eq] at hspace
    rcases hspace with ((rfl | rfl) | rfl) | rfl <;> decide

theorem endsNumber_of_isGap {b : List Char} (hb : IsGap b) : EndsNumber b := by
  intro d hd
  rcases b with _ | ⟨d', b⟩
  · cases hd
  · exact endsNumber_append hb (List.mem_cons_self) [] d hd

section Lists

variable {α : Type}

/-- Read the things in a list up to the character `close`: the loop over items and the loop over
fields in one. -/
def listed (close : Char) (read : List Char → Except Fault (α × List Char)) (first : Bool) :
    (bound : Nat) → List Char → Except Fault (List α × List Char)
  | 0, _ => .error .endOfText
  | bound + 1, cs =>
    match skipSpace cs with
    | [] => .error .endOfText
    | c :: rest =>
      if c = close then .ok ([], rest)
      else if first then do
        let (x, rest) ← read (c :: rest)
        let (others, rest) ← listed close read false bound rest
        .ok (x :: others, rest)
      else if c = ',' then do
        let (x, rest) ← read rest
        let (others, rest) ← listed close read false bound rest
        .ok (x :: others, rest)
      else .error .syntaxFault

theorem items_eq_listed (read : List Char → Except Fault (Json × List Char)) (first : Bool)
    (bound : Nat) (cs : List Char) :
    items read first bound cs = listed ']' read first bound cs := by
  induction bound generalizing first cs with
  | zero => rfl
  | succ bound ih =>
    rw [items, listed]
    rcases skipSpace cs with _ | ⟨c, rest⟩
    · rfl
    · by_cases hc : c = ']'
      · subst hc
        rfl
      · simp only [hc, ih, if_false]

theorem fields_eq_listed (read : List Char → Except Fault (Json × List Char)) (first : Bool)
    (bound : Nat) (cs : List Char) :
    fields read first bound cs = listed '\x7d' (field read) first bound cs := by
  induction bound generalizing first cs with
  | zero => rfl
  | succ bound ih =>
    rw [fields, listed]
    rcases skipSpace cs with _ | ⟨c, rest⟩
    · rfl
    · by_cases hc : c = '\x7d'
      · subst hc
        rfl
      · simp only [hc, ih, if_false]

variable {close : Char} {part : α → List Char → Prop}
  {read : List Char → Except Fault (α × List Char)}

theorem isSpace_of_close (hclose : close ∈ [']', '\x7d']) : isSpace close = false := by
  simp only [List.mem_cons, List.not_mem_nil, or_false] at hclose
  rcases hclose with rfl | rfl <;> rfl

theorem endsNumber_of_more {xs : List α} {more : List Char} (h : More part xs more)
    (hclose : close ∈ [']', '\x7d']) (rest : List Char) : EndsNumber (more ++ close :: rest) := by
  cases h with
  | nil hb => exact endsNumber_append hb (List.mem_cons_of_mem _ hclose) rest
  | cons hb =>
    rw [List.append_assoc, List.cons_append]
    exact endsNumber_append hb List.mem_cons_self _

variable (hclose : close ∈ [']', '\x7d'])
  (hread : ∀ {x a cs rest}, part x cs → IsGap a → EndsNumber rest →
    read (a ++ (cs ++ rest)) = .ok (x, rest))

include hclose hread

theorem listed_of_more {xs : List α} {more : List Char} (h : More part xs more) {bound : Nat}
    (hbound : more.length < bound) (rest : List Char) :
    listed close read false bound (more ++ close :: rest) = .ok (xs, rest) := by
  have hspace := isSpace_of_close hclose
  have hcomma : ',' ≠ close := by
    rintro rfl
    exact absurd hclose (by decide)
  induction h generalizing bound with
  | @nil b hb =>
    obtain ⟨bound, rfl⟩ := Nat.exists_eq_succ_of_ne_zero (Nat.ne_of_gt (Nat.zero_lt_of_lt hbound))
    rw [listed, skipSpace_append hb, skipSpace_cons hspace]
    exact if_pos rfl
  | @cons x xs b a cs more hb ha hx hmore ih =>
    obtain ⟨bound, rfl⟩ := Nat.exists_eq_succ_of_ne_zero (Nat.ne_of_gt (Nat.zero_lt_of_lt hbound))
    simp only [List.length_append, List.length_cons] at hbound
    simp only [List.append_assoc, List.cons_append]
    rw [listed, skipSpace_append hb, skipSpace_cons rfl]
    simp only [hcomma, if_false, Bool.false_eq_true, if_true]
    rw [hread hx ha (endsNumber_of_more hmore hclose rest)]
    simp only [bind, Except.bind, ih (show more.length < bound by omega)]

theorem listed_of_listed {xs : List α} {body : List Char} (h : Listed part xs body)
    (hhead : ∀ {x cs}, part x cs → ∃ c ds, cs = c :: ds ∧ isSpace c = false ∧ c ≠ close)
    {bound : Nat} (hbound : body.length < bound) (rest : List Char) :
    listed close read true bound (body ++ close :: rest) = .ok (xs, rest) := by
  have hspace := isSpace_of_close hclose
  obtain ⟨bound, rfl⟩ := Nat.exists_eq_succ_of_ne_zero (Nat.ne_of_gt (Nat.zero_lt_of_lt hbound))
  cases h with
  | nil hb =>
    rw [listed, skipSpace_append hb, skipSpace_cons hspace]
    exact if_pos rfl
  | @cons x xs a cs more ha hx hmore =>
    have hx' := hread hx isGap_nil (endsNumber_of_more hmore hclose rest)
    obtain ⟨c, ds, rfl, hc, hne⟩ := hhead hx
    simp only [List.length_append, List.length_cons] at hbound
    simp only [List.nil_append, List.append_assoc, List.cons_append] at hx' ⊢
    rw [listed, skipSpace_append ha, skipSpace_cons hc]
    simp only [hne, if_false, if_true, hx', bind, Except.bind]
    rw [listed_of_more hclose hread hmore (by omega)]

end Lists

section Parts

variable {part : Json → List Char → Prop} {read : List Char → Except Fault (Json × List Char)}
  (hread : ∀ {j a cs rest}, part j cs → IsGap a → EndsNumber rest →
    read (a ++ (cs ++ rest)) = .ok (j, rest))

include hread

theorem field_of_fieldText {f : String × Json} {a cs rest : List Char} (h : FieldText part f cs)
    (ha : IsGap a) (hrest : EndsNumber rest) :
    field read (a ++ (cs ++ rest)) = .ok (f, rest) := by
  cases h with
  | @field name j ns b a' cs hname hb ha' hj =>
    obtain ⟨ns, rfl⟩ := hname.exists_cons
    simp only [List.append_assoc, List.cons_append]
    rw [field, skipSpace_append ha, skipSpace_cons rfl]
    simp only [quoted_of_quotedText hname, bind, Except.bind, skipSpace_append hb]
    rw [skipSpace_cons rfl]
    simp only [hread hj ha' hrest]

/-- An array or an object is read behind its bracket. -/
theorem value_of_nestText {n : Nat} (hvalue : read = value n)
    (hhead : ∀ {j cs}, part j cs → ∃ c ds, cs = c :: ds ∧ isSpace c = false ∧ c ≠ ']')
    {j : Json} {cs : List Char} (h : NestText part j cs) (rest : List Char) :
    value (n + 1) (cs ++ rest) = .ok (j, rest) := by
  subst hvalue
  cases h with
  | @array items cs hitems =>
    rw [List.cons_append, List.append_assoc, List.singleton_append, value, skipSpace_cons rfl]
    have hlength : cs.length < (cs ++ ']' :: rest).length + 1 := by
      rw [List.length_append]
      omega
    simp only [items_eq_listed, listed_of_listed (by decide) hread hitems hhead hlength, bind,
      Except.bind]
  | @object fields cs hfields =>
    rw [List.cons_append, List.append_assoc, List.singleton_append, value, skipSpace_cons rfl]
    have hlength : cs.length < (cs ++ '\x7d' :: rest).length + 1 := by
      rw [List.length_append]
      omega
    have hhead : ∀ {f : String × Json} {cs : List Char}, FieldText part f cs →
        ∃ c ds, cs = c :: ds ∧ isSpace c = false ∧ c ≠ '\x7d' := by
      intro f cs h
      cases h with
      | field hname =>
        obtain ⟨ns, rfl⟩ := hname.exists_cons
        exact ⟨_, _, rfl, rfl, by decide⟩
    simp only [fields_eq_listed, listed_of_listed (by decide)
      (fun hf ha hrest ↦ field_of_fieldText hread hf ha hrest) hfields hhead hlength, bind,
      Except.bind]

end Parts

/-! ### Values -/

theorem value_append_gap (n : Nat) {a : List Char} (ha : IsGap a) (cs : List Char) :
    value n (a ++ cs) = value n cs := by
  rw [value, value, skipSpace_append ha]

/-- A digit begins a number. -/
theorem value_of_isDigit (n : Nat) {c : Char} (hc : c.isDigit = true) (cs : List Char) :
    value n (c :: cs) = number false (c :: cs) := by
  rw [value, skipSpace_cons (isSpace_of_isDigit hc)]
  simp only
  split
  all_goals first
    | exact absurd hc (by decide)
    | exact if_pos hc

theorem value_of_scalarText {j : Json} {cs rest : List Char} (h : ScalarText j cs)
    (hrest : EndsNumber rest) (n : Nat) : value n (cs ++ rest) = .ok (j, rest) := by
  cases h with
  | null =>
    show value n ('n' :: ("ull".toList ++ rest)) = _
    rw [value, skipSpace_cons rfl]
    simp only [expect_append, bind, Except.bind]
  | true =>
    show value n ('t' :: ("rue".toList ++ rest)) = _
    rw [value, skipSpace_cons rfl]
    simp only [expect_append, bind, Except.bind]
  | false =>
    show value n ('f' :: ("alse".toList ++ rest)) = _
    rw [value, skipSpace_cons rfl]
    simp only [expect_append, bind, Except.bind]
  | @number v cs hv hfinite =>
    obtain ⟨ds, rfl, ⟨c, ds', rfl, hc⟩, hnumber⟩ := number_of_numeralText hv hfinite hrest
    rcases hsign : v.negative with _ | _ <;> rw [hsign] at hnumber
    · exact (value_of_isDigit n hc _).trans hnumber
    · show value n ('-' :: (c :: ds' ++ rest)) = _
      rw [value, skipSpace_cons rfl]
      exact hnumber
  | string hs =>
    obtain ⟨ds, rfl⟩ := hs.exists_cons
    rw [List.cons_append, value, skipSpace_cons rfl]
    simp only [quoted_of_quotedText hs, bind, Except.bind]

/-- **The reader reads every text of a value**, with gaps before it and anything behind it that does
not go on with a number, and leaves what is behind it. -/
theorem value_of_isText {n : Nat} {j : Json} {a cs rest : List Char} (h : IsText n j cs)
    (ha : IsGap a) (hrest : EndsNumber rest) : value n (a ++ (cs ++ rest)) = .ok (j, rest) := by
  rw [value_append_gap n ha]
  induction n generalizing j cs rest with
  | zero => exact value_of_scalarText h hrest 0
  | succ n ih =>
    rcases h with h | h
    · exact value_of_scalarText h hrest (n + 1)
    · refine value_of_nestText (fun hj ha hrest ↦ ?_) rfl (fun hj ↦ hj.exists_cons) h rest
      rw [value_append_gap n ha]
      exact ih hj hrest

end FragmentParser.Json.Reader
