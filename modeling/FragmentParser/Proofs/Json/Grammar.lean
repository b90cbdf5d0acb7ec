import FragmentParser.Json.Reader

/-!
# The grammar of JSON texts

What the JSON texts of a value are, said without a reader. A value has many texts: there may be gaps
between tokens, characters may be escaped, and a number may have zeros behind its point.

`IsText n j cs` says that the characters `cs` are a text of the value `j` in which arrays and
objects nest at most `n` deep. It is defined layer by layer: the parts of an array or object are
texts of the layer below. A text begins with the first character of its value and ends with the last
one, so the gaps around it are not part of it.
-/

namespace FragmentParser.Json

open Reader (isSpace isLeading isTrailing)

/-- Only white space, or nothing. -/
def IsGap (cs : List Char) : Prop := ∀ c ∈ cs, isSpace c = true

/-! ### Texts between quotes -/

/-- The letters that stand behind a backslash for one character. -/
def shortEscapes : List (Char × Char) :=
  [('"', '"'), ('\\', '\\'), ('/', '/'), ('b', '\x08'), ('f', '\x0c'), ('n', '\n'), ('r', '\r'),
    ('t', '\t')]

/-- Four hexadecimal digits and the code unit they stand for. -/
inductive UnitText : Nat → List Char → Prop
  | digits {a b c d : Char} {w x y z : Nat} : hexValue? a = some w → hexValue? b = some x →
      hexValue? c = some y → hexValue? d = some z →
      UnitText (((w * 16 + x) * 16 + y) * 16 + z) [a, b, c, d]

/-- The ways to write a character between quotes. -/
inductive CharText : Char → List Char → Prop
  /-- By itself, unless it is a control character, a quote or a backslash. -/
  | plain {c : Char} : 0x20 ≤ c.toNat → c ≠ '"' → c ≠ '\\' → CharText c [c]
  /-- By a letter behind a backslash. -/
  | short {e c : Char} : (e, c) ∈ shortEscapes → CharText c ['\\', e]
  /-- By its code unit. -/
  | unit {n : Nat} {cs : List Char} : UnitText n cs → isLeading n = false → isTrailing n = false →
      CharText (Char.ofNat n) ('\\' :: 'u' :: cs)
  /-- By a surrogate pair. -/
  | pair {n m : Nat} {cs ds : List Char} : UnitText n cs → UnitText m ds → isLeading n = true →
      isTrailing m = true →
      CharText (Char.ofNat (0x10000 + (n - 0xD800) * 0x400 + (m - 0xDC00)))
        ('\\' :: 'u' :: (cs ++ '\\' :: 'u' :: ds))

/-- The ways to write characters one after another. -/
inductive CharsText : List Char → List Char → Prop
  | nil : CharsText [] []
  | cons {c : Char} {s cs ds : List Char} : CharText c cs → CharsText s ds →
      CharsText (c :: s) (cs ++ ds)

/-- A text between quotes. -/
inductive QuotedText : String → List Char → Prop
  | quoted {s cs : List Char} : CharsText s cs →
      QuotedText (String.ofList s) ('"' :: (cs ++ ['"']))

/-! ### Numbers -/

/-- A run of decimal digits, which is not empty. -/
def IsDigits (ds : List Char) : Prop := ds ≠ [] ∧ ∀ c ∈ ds, c.isDigit = true

/-- The digits behind the point of a number, if it has one. -/
inductive FractionText : List Char → List Char → Prop
  | none : FractionText [] []
  | some {ds : List Char} : IsDigits ds → FractionText ds ('.' :: ds)

/-- The sign of an exponent, which may be left out when it is a plus. -/
inductive SignText : Bool → List Char → Prop
  | none : SignText false []
  | plus : SignText false ['+']
  | minus : SignText true ['-']

/-- The exponent of a number, if it has one. -/
inductive ExponentText : Option Int → List Char → Prop
  | none : ExponentText none []
  | some {e : Char} {negative : Bool} {sign ds : List Char} : e ∈ ['e', 'E'] →
      SignText negative sign → IsDigits ds →
      ExponentText (.some (if negative then -(natOfDigits ds : Int) else natOfDigits ds))
        (e :: (sign ++ ds))

/-- A number. Its whole part does not begin with a zero, unless it is zero. -/
inductive NumeralText : Numeral → List Char → Prop
  | numeral {negative : Bool} {whole fraction fs es : List Char} {exponent : Option Int} :
      IsDigits whole → (whole.head? = some '0' → whole.length = 1) → FractionText fraction fs →
      ExponentText exponent es →
      NumeralText ⟨negative, whole, fraction, exponent⟩
        ((if negative then ['-'] else []) ++ (whole ++ (fs ++ es)))

/-! ### Values -/

/-- A value without parts. A number has to be within the range of floating-point numbers. -/
inductive ScalarText : Json → List Char → Prop
  | null : ScalarText .null "null".toList
  | true : ScalarText (.bool true) "true".toList
  | false : ScalarText (.bool false) "false".toList
  | number {n : Numeral} {cs : List Char} : NumeralText n cs → n.toDouble.isInfinite = false →
      ScalarText (.number n) cs
  | string {s : String} {cs : List Char} : QuotedText s cs → ScalarText (.string s) cs

section Lists

variable {α : Type}

/-- What follows a thing between brackets: further things, each behind a comma. -/
inductive More (part : α → List Char → Prop) : List α → List Char → Prop
  | nil {b : List Char} : IsGap b → More part [] b
  | cons {x : α} {xs : List α} {b a cs more : List Char} : IsGap b → IsGap a → part x cs →
      More part xs more → More part (x :: xs) (b ++ ',' :: (a ++ (cs ++ more)))

/-- Things between brackets, with commas between them. -/
inductive Listed (part : α → List Char → Prop) : List α → List Char → Prop
  | nil {b : List Char} : IsGap b → Listed part [] b
  | cons {x : α} {xs : List α} {a cs more : List Char} : IsGap a → part x cs → More part xs more →
      Listed part (x :: xs) (a ++ (cs ++ more))

end Lists

/-- A field of an object. -/
inductive FieldText (part : Json → List Char → Prop) : String × Json → List Char → Prop
  | field {name : String} {j : Json} {ns b a cs : List Char} : QuotedText name ns → IsGap b →
      IsGap a → part j cs → FieldText part (name, j) (ns ++ (b ++ ':' :: (a ++ cs)))

/-- An array or an object with the given parts. -/
inductive NestText (part : Json → List Char → Prop) : Json → List Char → Prop
  | array {items : List Json} {cs : List Char} : Listed part items cs →
      NestText part (.array items) ('[' :: (cs ++ [']']))
  | object {fields : List (String × Json)} {cs : List Char} : Listed (FieldText part) fields cs →
      NestText part (.object fields) ('\x7b' :: (cs ++ ['\x7d']))

/-- The characters are a text of the value, in which arrays and objects nest at most `n` deep. -/
def IsText : (n : Nat) → Json → List Char → Prop
  | 0, j, cs => ScalarText j cs
  | n + 1, j, cs => ScalarText j cs ∨ NestText (IsText n) j cs

/-! ### How texts begin -/

theorem isGap_nil : IsGap [] := by
  intro c hc
  cases hc

theorem IsGap.append {a b : List Char} (ha : IsGap a) (hb : IsGap b) : IsGap (a ++ b) := by
  intro c hc
  exact (List.mem_append.1 hc).elim (ha c) (hb c)

theorem QuotedText.exists_cons {s : String} {cs : List Char} (h : QuotedText s cs) :
    ∃ ds, cs = '"' :: ds := by
  cases h
  exact ⟨_, rfl⟩

theorem NumeralText.exists_cons {n : Numeral} {cs : List Char} (h : NumeralText n cs) :
    ∃ c ds, cs = c :: ds ∧ (c = '-' ∨ c.isDigit = true) := by
  cases h with
  | @numeral negative whole _ fs es _ hwhole =>
    obtain ⟨hne, hdigits⟩ := hwhole
    cases negative with
    | true => exact ⟨'-', _, rfl, .inl rfl⟩
    | false =>
      obtain ⟨c, ds, rfl⟩ := List.exists_cons_of_ne_nil hne
      exact ⟨c, ds ++ (fs ++ es), rfl, .inr (hdigits c List.mem_cons_self)⟩

theorem isSpace_of_isDigit {c : Char} (h : c.isDigit = true) : isSpace c = false := by
  rw [Bool.eq_false_iff]
  intro hc
  simp only [isSpace, Bool.or_eq_true, decide_eq_true_eq] at hc
  rcases hc with ((rfl | rfl) | rfl) | rfl <;> exact absurd h (by decide)

/-- The first character of a text is no white space and closes nothing. -/
theorem IsText.exists_cons {n : Nat} {j : Json} {cs : List Char} (h : IsText n j cs) :
    ∃ c ds, cs = c :: ds ∧ isSpace c = false ∧ c ≠ ']' := by
  have hscalar : ScalarText j cs → ∃ c ds, cs = c :: ds ∧ isSpace c = false ∧ c ≠ ']' := by
    intro h
    cases h with
    | null | true | false => exact ⟨_, _, rfl, rfl, by decide⟩
    | number hn =>
      obtain ⟨c, ds, rfl, hc⟩ := hn.exists_cons
      rcases hc with rfl | hc
      · exact ⟨_, _, rfl, rfl, by decide⟩
      · refine ⟨c, ds, rfl, isSpace_of_isDigit hc, ?_⟩
        rintro rfl
        exact absurd hc (by decide)
    | string hs =>
      obtain ⟨ds, rfl⟩ := hs.exists_cons
      exact ⟨_, _, rfl, rfl, by decide⟩
  cases n with
  | zero => exact hscalar h
  | succ n =>
    rcases h with h | h
    · exact hscalar h
    · cases h <;> exact ⟨_, _, rfl, rfl, by decide⟩

end FragmentParser.Json
