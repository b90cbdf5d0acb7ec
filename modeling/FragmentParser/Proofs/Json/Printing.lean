import FragmentParser.Proofs.Json.Grammar

/-!
# Printed values are JSON texts

A value printed over several lines is one of its texts (`Json.isText_renderChars`): what the printer
puts between tokens are gaps, and its escapes are escapes of the grammar. The text nests as deep as
the value does (`Json.nesting`).
-/

namespace FragmentParser.Json

open Reader (isLeading isTrailing)

mutual

/-- How deep arrays and objects nest in a value. -/
def nesting : Json → Nat
  | .array items => nestingOfItems items + 1
  | .object fields => nestingOfFields fields + 1
  | _ => 0

/-- How deep they nest in one of the items. -/
def nestingOfItems : List Json → Nat
  | [] => 0
  | item :: items => max (nesting item) (nestingOfItems items)

/-- How deep they nest in the value of one of the fields. -/
def nestingOfFields : List (String × Json) → Nat
  | [] => 0
  | (_, value) :: fields => max (nesting value) (nestingOfFields fields)

end

mutual

/-- All numbers in the value are printed as numbers within range. -/
def Printable : Json → Prop
  | .number v => NumeralText v v.chars ∧ v.toDouble.isInfinite = false
  | .array items => PrintableItems items
  | .object fields => PrintableFields fields
  | _ => True

/-- So in the items. -/
def PrintableItems : List Json → Prop
  | [] => True
  | item :: items => Printable item ∧ PrintableItems items

/-- So in the values of the fields. -/
def PrintableFields : List (String × Json) → Prop
  | [] => True
  | (_, value) :: fields => Printable value ∧ PrintableFields fields

end

theorem PrintableFields.append {fields fields' : List (String × Json)} (h : PrintableFields fields)
    (h' : PrintableFields fields') : PrintableFields (fields ++ fields') := by
  induction fields with
  | nil => exact h'
  | cons _ _ ih => exact ⟨h.1, ih h.2⟩

theorem isGap_newline (depth : Nat) : IsGap (newline depth) := by
  intro c hc
  rcases List.mem_cons.1 hc with rfl | hc
  · rfl
  · obtain rfl := List.eq_of_mem_replicate hc
    rfl

theorem charText_escapeChar (c : Char) : CharText c (escapeChar c) := by
  unfold escapeChar
  split
  · exact .short (by decide)
  · exact .short (by decide)
  · exact .short (by decide)
  · exact .short (by decide)
  · exact .short (by decide)
  · exact .short (by decide)
  · exact .short (by decide)
  · next hquote hslash _ _ _ _ _ =>
    split
    · next hc =>
      have hdigits : ∀ n < 0x20, hexValue? (n / 16).digitChar = some (n / 16) ∧
          hexValue? (n % 16).digitChar = some (n % 16) ∧ isLeading n = false ∧
            isTrailing n = false := by
        decide
      obtain ⟨hhigh, hlow, hleading, htrailing⟩ := hdigits _ hc
      have hunit : UnitText c.toNat
          ['0', '0', (c.toNat / 16).digitChar, (c.toNat % 16).digitChar] := by
        have h : UnitText _ _ := .digits (show hexValue? '0' = some 0 from rfl)
          (show hexValue? '0' = some 0 from rfl) hhigh hlow
        rwa [show ((0 * 16 + 0) * 16 + c.toNat / 16) * 16 + c.toNat % 16 = c.toNat by omega] at h
      have h := CharText.unit hunit hleading htrailing
      rwa [Char.ofNat_toNat] at h
    · next hc => exact .plain (Nat.not_lt.1 hc) hquote hslash

theorem quotedText_quoteChars (s : String) : QuotedText s (quoteChars s) := by
  have hchars : ∀ cs : List Char, CharsText cs (cs.flatMap escapeChar) := by
    intro cs
    induction cs with
    | nil => exact .nil
    | cons c cs ih => exact .cons (charText_escapeChar c) ih
  have h := QuotedText.quoted (hchars s.toList)
  rwa [String.ofList_toList] at h

theorem IsText.of_scalarText {n : Nat} {j : Json} {cs : List Char} (h : ScalarText j cs) :
    IsText n j cs := by
  cases n with
  | zero => exact h
  | succ n => exact .inl h

/-- A field is printed with a space behind its colon. -/
theorem fieldText_renderChars {part : Json → List Char → Prop} (name : String) {j : Json}
    {cs : List Char} (h : part j cs) :
    FieldText part (name, j) (quoteChars name ++ ([':', ' '] ++ cs)) := by
  have hspace : IsGap [' '] := by
    intro c hc
    obtain rfl := List.mem_singleton.1 hc
    rfl
  exact .field (quotedText_quoteChars name) isGap_nil hspace h

/-- What nests has a layer below. -/
theorem isText_of_nestText {n m : Nat} {j : Json} {cs : List Char} (hn : m + 1 ≤ n)
    (h : ∀ {k}, m ≤ k → NestText (IsText k) j cs) : IsText n j cs := by
  obtain ⟨k, rfl⟩ := Nat.exists_eq_add_of_le' hn
  exact .inr (h (Nat.le_add_left m k))

mutual

/-- **A printed value is a text of the value.** -/
theorem isText_renderChars {n : Nat} (depth : Nat) :
    (j : Json) → Printable j → nesting j ≤ n → IsText n j (renderChars depth j)
  | .null, _, _ => .of_scalarText .null
  | .bool true, _, _ => .of_scalarText .true
  | .bool false, _, _ => .of_scalarText .false
  | .number _, hprint, _ => .of_scalarText (.number hprint.1 hprint.2)
  | .string s, _, _ => .of_scalarText (.string (quotedText_quoteChars s))
  | .array [], _, hn => isText_of_nestText hn fun _ ↦ .array (.nil isGap_nil)
  | .array (item :: items), hprint, hn => isText_of_nestText hn fun {k} hk ↦ by
    have hitem : nesting item ≤ k := Nat.le_trans (Nat.le_max_left ..) hk
    have hitems : nestingOfItems items ≤ k := Nat.le_trans (Nat.le_max_right ..) hk
    have h := NestText.array (.cons (isGap_newline (depth + 1))
      (isText_renderChars (depth + 1) item hprint.1 hitem)
      (more_renderItems (depth + 1) (isGap_newline depth) items hprint.2 hitems))
    simpa only [renderChars, List.append_assoc] using h
  | .object [], _, hn => isText_of_nestText hn fun _ ↦ .object (.nil isGap_nil)
  | .object ((name, value) :: fields), hprint, hn => isText_of_nestText hn fun {k} hk ↦ by
    have hvalue : nesting value ≤ k := Nat.le_trans (Nat.le_max_left ..) hk
    have hfields : nestingOfFields fields ≤ k := Nat.le_trans (Nat.le_max_right ..) hk
    have h := NestText.object (.cons (isGap_newline (depth + 1))
      (fieldText_renderChars name (isText_renderChars (depth + 1) value hprint.1 hvalue))
      (more_renderFields (depth + 1) (isGap_newline depth) fields hprint.2 hfields))
    simpa only [renderChars, List.append_assoc, List.cons_append, List.nil_append] using h

theorem more_renderItems {n : Nat} (depth : Nat) {b : List Char} (hb : IsGap b) :
    (items : List Json) → PrintableItems items → nestingOfItems items ≤ n →
      More (IsText n) items (renderItems depth items ++ b)
  | [], _, _ => .nil hb
  | item :: items, hprint, hn => by
    have hitem : nesting item ≤ n := Nat.le_trans (Nat.le_max_left ..) hn
    have hitems : nestingOfItems items ≤ n := Nat.le_trans (Nat.le_max_right ..) hn
    have h := More.cons isGap_nil (isGap_newline depth)
      (isText_renderChars depth item hprint.1 hitem)
      (more_renderItems depth hb items hprint.2 hitems)
    simpa only [renderItems, List.append_assoc, List.cons_append, List.nil_append] using h

theorem more_renderFields {n : Nat} (depth : Nat) {b : List Char} (hb : IsGap b) :
    (fields : List (String × Json)) → PrintableFields fields → nestingOfFields fields ≤ n →
      More (FieldText (IsText n)) fields (renderFields depth fields ++ b)
  | [], _, _ => .nil hb
  | (name, value) :: fields, hprint, hn => by
    have hvalue : nesting value ≤ n := Nat.le_trans (Nat.le_max_left ..) hn
    have hfields : nestingOfFields fields ≤ n := Nat.le_trans (Nat.le_max_right ..) hn
    have h := More.cons isGap_nil (isGap_newline depth)
      (fieldText_renderChars name (isText_renderChars depth value hprint.1 hvalue))
      (more_renderFields depth hb fields hprint.2 hfields)
    simpa only [renderFields, List.append_assoc, List.cons_append, List.nil_append] using h

end

end FragmentParser.Json
