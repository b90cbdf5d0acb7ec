import FragmentParser.Format.Tag
import FragmentParser.Proofs.Text.Pieces

/-!
# Tags determine the elements of a tree

From the tags of a tree one reads its elements, with their kinds, attributes and nesting, and the
words between the tags (`Tag.render_determines`). How text was spread over lines and over runs of
text is lost, and nothing else.

Between the tree and its text stand its **marks** (`Tag.marks`): its tags in order, and the words
between them.

* From the text to the marks: no angle bracket is written except around a tag, so the text cut at
  angle brackets is in turn text and the inside of a tag (`Tag.scan`). Around every run of text are
  blanks or angle brackets, so the layout joins no words (`Tag.scan_nodeChars`). The replacements
  in a text write each of its characters by itself (`Tag.escape_eq_flatMap`). What is inside a
  tag tells which tag it is, as names have none of the characters that delimit them
  (`Tag.Mark.eq_of_token_eq`).
* From the marks to the elements: a reader with a stack of the open elements rebuilds them
  (`Tag.foldl_step_marks`).
-/

namespace FragmentParser.Format.Tag

open Text

/-! ### Names -/

/-- The characters that delimit names, and those that are written in another way. -/
def delimiters : List Char := ['<', '>', '/', '=', '&', '"', '\'']

/-- A text that can stand where a name stands: it is not empty, and it has no blanks and none of the
delimiters. -/
def IsName (s : String) : Prop :=
  s ≠ "" ∧ ∀ c ∈ s.toList, isBlank c = false ∧ c ∉ delimiters

instance : DecidablePred IsName := fun s ↦
  decidable_of_iff (s ≠ "" ∧ s.toList.all (fun c ↦ isBlank c = false ∧ c ∉ delimiters) = true)
    (by simp [IsName])

/-- The kind and the names of the attributes are names. -/
def TagNamed (kind : String) (attributes : Attributes) : Prop :=
  IsName kind ∧ ∀ a ∈ attributes.entries, IsName a.1

mutual

/-- All kinds and all names of attributes in the tree are names. -/
def Named : Node → Prop
  | .text _ => True
  | .element kind attributes children => TagNamed kind attributes ∧ AllNamed children

/-- So in all the trees. -/
def AllNamed : List Node → Prop
  | [] => True
  | n :: ns => Named n ∧ AllNamed ns

end

/-! ### Marks -/

/-- A tag, or a word of text. -/
inductive Mark where
  /-- The tag before the children of an element. -/
  | opening (kind : String) (attributes : Attributes)
  /-- The tag behind the children of an element. -/
  | closing (kind : String)
  /-- The only tag of an element without children. -/
  | single (kind : String) (attributes : Attributes)
  /-- A word. -/
  | word (chars : List Char)

mutual

/-- The tags of a tree in order, and the words between them. -/
def marks : Node → List Mark
  | .text value => (words value.toList).map .word
  | .element kind attributes [] => [.single kind attributes]
  | .element kind attributes (n :: ns) =>
    .opening kind attributes :: (marksOf (n :: ns) ++ [.closing kind])

/-- The tags and words of trees. -/
def marksOf : List Node → List Mark
  | [] => []
  | n :: ns => marks n ++ marksOf ns

end

mutual

/-- The elements of a tree in their nesting: the tree without its text. -/
def elements : Node → List Node
  | .text _ => []
  | .element kind attributes children => [.element kind attributes (elementsOf children)]

/-- The elements of trees. -/
def elementsOf : List Node → List Node
  | [] => []
  | n :: ns => elements n ++ elementsOf ns

end

/-! ### From the marks to the elements -/

/-- The open elements, innermost first, each with the elements before it, and the elements that are
complete in the innermost one. -/
structure Reader where
  /-- The open elements. -/
  opened : List (String × Attributes × List Node)
  /-- The elements that are complete. -/
  complete : List Node

/-- Read a mark. -/
def Reader.step (r : Reader) : Mark → Reader
  | .opening kind attributes => ⟨(kind, attributes, r.complete) :: r.opened, []⟩
  | .closing _ =>
    match r.opened with
    | [] => r
    | (kind, attributes, before) :: opened =>
      ⟨opened, before ++ [.element kind attributes r.complete]⟩
  | .single kind attributes => ⟨r.opened, r.complete ++ [.element kind attributes []]⟩
  | .word _ => r

mutual

/-- The reader comes to the end of a tree with its elements complete. -/
theorem foldl_step_marks (r : Reader) : (t : Node) →
    (marks t).foldl Reader.step r = ⟨r.opened, r.complete ++ elements t⟩
  | .text value => by
    have hwords : ∀ ws : List (List Char), (ws.map Mark.word).foldl Reader.step r = r := by
      intro ws
      induction ws with
      | nil => rfl
      | cons w ws ih => exact ih
    rw [marks, hwords, elements, List.append_nil]
  | .element kind attributes [] => rfl
  | .element kind attributes (n :: ns) => by
    rw [marks, List.foldl_cons, List.foldl_append, foldl_step_marksOf _ (n :: ns)]
    rfl

theorem foldl_step_marksOf (r : Reader) : (ts : List Node) →
    (marksOf ts).foldl Reader.step r = ⟨r.opened, r.complete ++ elementsOf ts⟩
  | [] => by rw [marksOf, elementsOf, List.append_nil, List.foldl_nil]
  | t :: ts => by
    rw [marksOf, List.foldl_append, foldl_step_marks r t, foldl_step_marksOf _ ts, elementsOf,
      List.append_assoc]

end

/-- Trees with the same marks have the same elements. -/
theorem elements_eq_of_marks_eq {t u : Node} (h : marks t = marks u) : elements t = elements u := by
  have ht := foldl_step_marks ⟨[], []⟩ t
  rw [h, foldl_step_marks ⟨[], []⟩ u] at ht
  exact (congrArg Reader.complete ht).symm

/-! ### Escaped text -/

/-- How one character of a text or of an attribute's value is written. -/
def escapeChar (c : Char) : List Char :=
  match c with
  | '&' => "&amp;".toList
  | '<' => "&lt;".toList
  | '>' => "&gt;".toList
  | '"' => "&quot;".toList
  | '\'' => "&apos;".toList
  | c => [c]

/-- The characters that are written in another way. -/
def escapedChars : List Char := ['&', '<', '>', '"', '\'']

theorem escapeChar_of_notMem {c : Char} (h : c ∉ escapedChars) : escapeChar c = [c] := by
  simp only [escapedChars, List.mem_cons, List.not_mem_nil, or_false, not_or] at h
  obtain ⟨hand, hlt, hgt, hquote, hapostrophe⟩ := h
  unfold escapeChar
  split
  · exact absurd rfl hand
  · exact absurd rfl hlt
  · exact absurd rfl hgt
  · exact absurd rfl hquote
  · exact absurd rfl hapostrophe
  · rfl

theorem forall_mem_escapedChars {P : Char → Prop} :
    (∀ c ∈ escapedChars, P c) ↔ P '&' ∧ P '<' ∧ P '>' ∧ P '"' ∧ P '\'' := by
  simp [escapedChars]

/-- The replacements one after another write each character by itself. -/
theorem escape_eq_flatMap (s : String) : escape s = s.toList.flatMap escapeChar := by
  simp only [escape, replaceChar, List.flatMap_assoc]
  congr 1
  funext c
  by_cases hc : c ∈ escapedChars
  · simp only [escapedChars, List.mem_cons, List.not_mem_nil, or_false] at hc
    rcases hc with rfl | rfl | rfl | rfl | rfl <;> rfl
  · rw [escapeChar_of_notMem hc]
    simp only [escapedChars, List.mem_cons, List.not_mem_nil, or_false, not_or] at hc
    simp [hc]

theorem exists_escapeChar {c : Char} (h : c ∈ escapedChars) : ∃ cs, escapeChar c = '&' :: cs := by
  have hhead : ∀ c ∈ escapedChars, (escapeChar c).head? = some '&' :=
    forall_mem_escapedChars.2 (by decide)
  exact List.head?_eq_some_iff.1 (hhead c h)

/-- Escapes begin with an ampersand, and differ within three characters. -/
theorem escapeChar_append_inj {c d : Char} {cs ds : List Char}
    (h : escapeChar c ++ cs = escapeChar d ++ ds) : c = d ∧ cs = ds := by
  by_cases hc : c ∈ escapedChars <;> by_cases hd : d ∈ escapedChars
  -- no escape is a part of another one, but `&lt;` and `&gt;` are shorter than the others
  · have hlength : ∀ c ∈ escapedChars, 3 ≤ (escapeChar c).length :=
      forall_mem_escapedChars.2 (by decide)
    have hdiffer : ∀ c ∈ escapedChars, escapedChars.all
        (fun d ↦ (escapeChar c).take 3 = (escapeChar d).take 3 → c = d) = true :=
      forall_mem_escapedChars.2 (by decide)
    have htake := congrArg (List.take 3) h
    rw [List.take_append_of_le_length (hlength c hc),
      List.take_append_of_le_length (hlength d hd)] at htake
    obtain rfl := of_decide_eq_true (List.all_eq_true.1 (hdiffer c hc) d hd) htake
    exact ⟨rfl, List.append_cancel_left h⟩
  · obtain ⟨es, he⟩ := exists_escapeChar hc
    rw [he, escapeChar_of_notMem hd] at h
    obtain rfl : '&' = d := (List.cons_eq_cons.1 h).1
    exact absurd (by decide) hd
  · obtain ⟨es, he⟩ := exists_escapeChar hd
    rw [he, escapeChar_of_notMem hc] at h
    obtain rfl : c = '&' := (List.cons_eq_cons.1 h).1
    exact absurd (by decide) hc
  · rw [escapeChar_of_notMem hc, escapeChar_of_notMem hd] at h
    exact List.cons_eq_cons.1 h

theorem escapeChar_ne_nil (c : Char) : escapeChar c ≠ [] := by
  by_cases hc : c ∈ escapedChars
  · obtain ⟨cs, h⟩ := exists_escapeChar hc
    rw [h]
    exact List.cons_ne_nil _ _
  · rw [escapeChar_of_notMem hc]
    exact List.cons_ne_nil _ _

theorem escape_eq_nil {cs : List Char} : cs.flatMap escapeChar = [] ↔ cs = [] := by
  cases cs with
  | nil => simp
  | cons c cs => simp [escapeChar_ne_nil]

/-- Different texts are escaped differently. -/
theorem escape_inj {cs ds : List Char} (h : cs.flatMap escapeChar = ds.flatMap escapeChar) :
    cs = ds := by
  induction cs generalizing ds with
  | nil => exact (escape_eq_nil.1 h.symm).symm
  | cons c cs ih =>
    cases ds with
    | nil => exact escape_eq_nil.1 h
    | cons d ds =>
      obtain ⟨rfl, hrest⟩ := escapeChar_append_inj h
      rw [ih hrest]

/-- No delimiter is left. -/
theorem notMem_escape {c : Char} {s : List Char} (h : c ∈ s.flatMap escapeChar) :
    c ∉ ['<', '>', '"'] := by
  obtain ⟨d, -, hc⟩ := List.mem_flatMap.1 h
  by_cases hd : d ∈ escapedChars
  · have hescaped : ∀ d ∈ escapedChars, (escapeChar d).all (· ∉ ['<', '>', '"']) = true :=
      forall_mem_escapedChars.2 (by decide)
    exact of_decide_eq_true (List.all_eq_true.1 (hescaped d hd) c hc)
  · rw [escapeChar_of_notMem hd] at hc
    obtain rfl := List.mem_singleton.1 hc
    intro hmem
    exact hd ((show ['<', '>', '"'] ⊆ escapedChars by decide) hmem)

/-- A character and what it is written as are blank or not alike. -/
theorem isBlank_escapeChar {c d : Char} (h : d ∈ escapeChar c) : isBlank d = isBlank c := by
  by_cases hc : c ∈ escapedChars
  · have hescaped : ∀ c ∈ escapedChars, (escapeChar c).all (isBlank · = isBlank c) = true :=
      forall_mem_escapedChars.2 (by decide)
    exact of_decide_eq_true (List.all_eq_true.1 (hescaped c hc) d h)
  · rw [escapeChar_of_notMem hc] at h
    rw [List.mem_singleton.1 h]

/-- Escaping a text escapes its words. -/
theorem words_escape (s : List Char) :
    words (s.flatMap escapeChar) = (words s).map (·.flatMap escapeChar) := by
  have hsplit : (s.flatMap escapeChar).splitOnP isBlank =
      (s.splitOnP isBlank).map (·.flatMap escapeChar) := by
    induction s with
    | nil => rfl
    | cons c s ih =>
      rw [List.flatMap_cons, List.splitOnP_cons_eq_if_modifyHead]
      cases hc : isBlank c with
      | true =>
        have hplain : c ∉ escapedChars := by
          intro h
          have hescaped : ∀ c ∈ escapedChars, isBlank c = false :=
            forall_mem_escapedChars.2 (by decide)
          exact absurd ((hescaped c h).symm.trans hc) Bool.false_ne_true
        rw [escapeChar_of_notMem hplain, List.singleton_append,
          List.splitOnP_cons_eq_if_modifyHead, hc, ih]
        rfl
      | false =>
        rw [splitOnP_append (fun d hd ↦ (isBlank_escapeChar hd).trans hc), ih]
        cases s.splitOnP isBlank <;> simp
  rw [words, hsplit, List.filter_map, words]
  congr 2
  funext w
  cases w with
  | nil => rfl
  | cons c w => simp [escapeChar_ne_nil]

/-! ### From the text to the marks -/

/-- What a text with tags is cut into. -/
inductive Token where
  /-- A word between tags. -/
  | word (chars : List Char)
  /-- The inside of a tag. -/
  | tag (inside : List Char)

/-- The tokens of pieces that are in turn text and the inside of a tag. -/
def tokens : List (List Char) → List Token
  | [] => []
  | [text] => (words text).map .word
  | text :: inside :: pieces => (words text).map .word ++ .tag inside :: tokens pieces

/-- Whether the character is an angle bracket. -/
def isAngle (c : Char) : Bool := c = '<' || c = '>'

/-- A text cut at angle brackets, and what is between tags cut at blanks. -/
def scan (cs : List Char) : List Token := tokens (cs.splitOnP isAngle)

/-- A tag with text before it. -/
theorem scan_tag {a inside : List Char} (ha : ∀ c ∈ a, isAngle c = false)
    (hinside : ∀ c ∈ inside, isAngle c = false) (cs : List Char) :
    scan (a ++ '<' :: (inside ++ '>' :: cs)) = (words a).map .word ++ .tag inside :: scan cs := by
  rw [scan, List.splitOnP_append_cons_of_forall_mem ha '<' rfl,
    List.splitOnP_append_cons_of_forall_mem hinside '>' rfl]
  rfl

/-- A line of text. -/
theorem scan_line {a : List Char} (ha : ∀ c ∈ a, isAngle c = false) (cs : List Char) :
    scan (a ++ '\n' :: cs) = (words a).map .word ++ scan cs := by
  have hline : ∀ c ∈ a ++ ['\n'], isAngle c = false := by
    simpa [or_imp, forall_and, show isAngle '\n' = false from rfl] using ha
  obtain ⟨text, pieces, hpieces⟩ := List.exists_cons_of_ne_nil (List.splitOnP_ne_nil isAngle cs)
  have hsplit := splitOnP_append hline cs
  rw [List.append_assoc, List.singleton_append, hpieces, List.modifyHead_cons, List.append_assoc,
    List.singleton_append] at hsplit
  rw [scan, hsplit, scan, hpieces]
  cases pieces with
  | nil => rw [tokens, tokens, words_append_cons a rfl, List.map_append]
  | cons inside pieces =>
    rw [tokens, tokens, words_append_cons a rfl, List.map_append, List.append_assoc]

/-- How a mark is written. -/
def Mark.token : Mark → Token
  | .opening kind attributes => .tag (openTag kind attributes)
  | .closing kind => .tag ('/' :: kind.toList)
  | .single kind attributes => .tag (openTag kind attributes ++ ['/'])
  | .word chars => .word (chars.flatMap escapeChar)

theorem isAngle_of_isName {s : String} (hs : IsName s) : ∀ c ∈ s.toList, isAngle c = false := by
  intro c hc
  have h := (hs.2 c hc).2
  simp only [delimiters, List.mem_cons, not_or] at h
  simp [isAngle, h.1, h.2.1]

theorem isAngle_of_escape (value : String) : ∀ c ∈ escape value, isAngle c = false := by
  intro c hc
  rw [escape_eq_flatMap] at hc
  have h := notMem_escape hc
  simp only [List.mem_cons, not_or] at h
  simp [isAngle, h.1, h.2.1]

/-- There are no angle brackets inside a tag. -/
theorem isAngle_of_openTag {kind : String} {attributes : Attributes}
    (h : TagNamed kind attributes) : ∀ c ∈ openTag kind attributes, isAngle c = false := by
  intro c hc
  rcases List.mem_append.1 hc with hc | hc
  · exact isAngle_of_isName h.1 c hc
  · obtain ⟨⟨name, value⟩, ha, hc⟩ := List.mem_flatMap.1 hc
    have hname := isAngle_of_isName (h.2 _ ha) c
    have hvalue := isAngle_of_escape value c
    simp only [attributeChars, List.mem_cons, List.mem_append, List.not_mem_nil,
      or_false] at hc
    rcases hc with rfl | ((hc | rfl | rfl) | hc) | rfl
    · rfl
    · exact hname hc
    · rfl
    · rfl
    · exact hvalue hc
    · rfl

theorem isAngle_of_indent (depth : Nat) : ∀ c ∈ indent depth, isAngle c = false := by
  intro c hc
  rw [List.eq_of_mem_replicate hc]
  rfl

theorem words_indent_append (depth : Nat) (cs : List Char) :
    words (indent depth ++ cs) = words cs := by
  refine words_append_of_blank (fun c hc ↦ ?_) cs
  rw [List.eq_of_mem_replicate hc]
  rfl

theorem words_indent (depth : Nat) : words (indent depth) = [] := by
  have h := words_indent_append depth []
  rwa [List.append_nil] at h

theorem scan_newline (cs : List Char) : scan ('\n' :: cs) = scan cs :=
  scan_line (List.forall_mem_nil _) cs

/-- A tag that begins a line. -/
theorem scan_indent_tag (depth : Nat) {inside : List Char}
    (hinside : ∀ c ∈ inside, isAngle c = false) (cs : List Char) :
    scan (indent depth ++ '<' :: (inside ++ '>' :: cs)) = .tag inside :: scan cs := by
  rw [scan_tag (isAngle_of_indent depth) hinside, words_indent]
  rfl

theorem nodeChars_nested (depth : Nat) (kind : String) (attributes : Attributes)
    {children : List Node} (hnil : children ≠ []) (htext : ∀ value, children ≠ [.text value]) :
    nodeChars depth (.element kind attributes children) =
      indent depth ++ '<' :: openTag kind attributes ++ ['>', '\n'] ++
        nodesChars (depth + 1) children ++ indent depth ++ closeTag kind ++ ['\n'] := by
  rw [nodeChars]
  · exact hnil
  · exact htext

mutual

/-- The text of a tree is cut into its marks. -/
theorem scan_nodeChars (depth : Nat) (cs : List Char) : (t : Node) → Named t →
    scan (nodeChars depth t ++ cs) = (marks t).map Mark.token ++ scan cs
  | .text value, _ => by
    have hline : ∀ c ∈ indent depth ++ escape value, isAngle c = false :=
      List.forall_mem_append.2 ⟨isAngle_of_indent depth, isAngle_of_escape value⟩
    rw [nodeChars, List.append_assoc, List.singleton_append, scan_line hline, words_indent_append,
      escape_eq_flatMap, words_escape, marks, List.map_map, List.map_map]
    rfl
  | .element kind attributes [], ⟨htag, _⟩ => by
    have hinside : ∀ c ∈ openTag kind attributes ++ ['/'], isAngle c = false :=
      List.forall_mem_append.2 ⟨isAngle_of_openTag htag, List.forall_mem_singleton.2 rfl⟩
    have h := scan_indent_tag depth hinside ('\n' :: cs)
    rw [scan_newline] at h
    simpa [nodeChars, marks, Mark.token] using h
  | .element kind attributes (n :: ns), ⟨htag, hchildren⟩ => by
    have hopen := isAngle_of_openTag htag
    have hclose : ∀ c ∈ '/' :: kind.toList, isAngle c = false :=
      List.forall_mem_cons.2 ⟨rfl, isAngle_of_isName htag.1⟩
    -- a text that is the only child is written between its tags, and on their line
    by_cases htext : ∃ value, n :: ns = [.text value]
    · obtain ⟨value, hvalue⟩ := htext
      cases hvalue
      have hvalue := scan_tag (isAngle_of_escape value) hclose ('\n' :: cs)
      have h := scan_indent_tag depth hopen
        (escape value ++ '<' :: ('/' :: kind.toList ++ '>' :: '\n' :: cs))
      rw [hvalue, scan_newline, escape_eq_flatMap, words_escape] at h
      simpa [nodeChars, closeTag, escape_eq_flatMap, marks, marksOf, Mark.token, Function.comp_def] using h
    · have hend := scan_indent_tag depth hclose ('\n' :: cs)
      have hinside := scan_nodesChars (depth + 1)
        (indent depth ++ '<' :: ('/' :: kind.toList ++ '>' :: '\n' :: cs)) (n :: ns) hchildren
      have h := scan_indent_tag depth hopen ('\n' :: (nodesChars (depth + 1) (n :: ns) ++
        (indent depth ++ '<' :: ('/' :: kind.toList ++ '>' :: '\n' :: cs))))
      rw [scan_newline, hinside, hend, scan_newline] at h
      rw [nodeChars_nested depth kind attributes (List.cons_ne_nil n ns) (not_exists.1 htext)]
      simpa [closeTag, marks, Mark.token] using h

theorem scan_nodesChars (depth : Nat) (cs : List Char) : (ts : List Node) → AllNamed ts →
    scan (nodesChars depth ts ++ cs) = (marksOf ts).map Mark.token ++ scan cs
  | [], _ => rfl
  | t :: ts, h => by
    rw [nodesChars, List.append_assoc, scan_nodeChars depth _ t h.1,
      scan_nodesChars depth cs ts h.2, marksOf, List.map_append, List.append_assoc]

end

/-! ### Tags are told apart by their insides -/

/-- What stands before a delimiter, or before the end, is determined. -/
theorem append_inj_of_delimited {d : Char} {a b x y : List Char} (ha : d ∉ a) (hb : d ∉ b)
    (hx : ∀ c ∈ x.head?, c = d) (hy : ∀ c ∈ y.head?, c = d) (h : a ++ x = b ++ y) :
    a = b ∧ x = y :=
  append_inj_of_boundary (q := (· ≠ d)) (fun _ hc heq ↦ ha (heq ▸ hc))
    (fun _ hc heq ↦ hb (heq ▸ hc)) (fun c hc hne ↦ hne (hx c hc)) (fun c hc hne ↦ hne (hy c hc)) h

theorem notMem_of_isName {s : String} (hs : IsName s) {c : Char}
    (hc : isBlank c = true ∨ c ∈ delimiters) : c ∉ s.toList := by
  intro hmem
  obtain ⟨hblank, hdelimiter⟩ := hs.2 c hmem
  rcases hc with hc | hc
  · rw [hc] at hblank
    cases hblank
  · exact hdelimiter hc

/-- Attributes are determined by what is written for them. -/
theorem attributeChars_inj {as bs : List (String × String)} (has : ∀ a ∈ as, IsName a.1)
    (hbs : ∀ b ∈ bs, IsName b.1) (h : as.flatMap attributeChars = bs.flatMap attributeChars) :
    as = bs := by
  induction as generalizing bs with
  | nil =>
    cases bs with
    | nil => rfl
    | cons b bs => cases h
  | cons a as ih =>
    cases bs with
    | nil => cases h
    | cons b bs =>
      obtain ⟨name, value⟩ := a
      obtain ⟨name', value'⟩ := b
      obtain ⟨hname, hnames⟩ := List.forall_mem_cons.1 has
      obtain ⟨hname', hnames'⟩ := List.forall_mem_cons.1 hbs
      have hequals {name : String} (h : IsName name) : '=' ∉ name.toList :=
        notMem_of_isName h (.inr (by decide))
      have hquote (value : String) : '"' ∉ escape value := by
        rw [escape_eq_flatMap]
        exact fun hmem ↦ absurd (notMem_escape hmem) (by decide)
      simp only [List.flatMap_cons, attributeChars, List.cons_append, List.append_assoc,
        List.nil_append, List.cons.injEq, true_and] at h
      obtain ⟨heq, h⟩ := append_inj_of_delimited (hequals hname) (hequals hname')
        (by simp) (by simp) h
      simp only [List.cons.injEq, true_and] at h
      obtain ⟨heq', hrest⟩ := append_inj_of_delimited (hquote value) (hquote value')
        (by simp) (by simp) h
      obtain rfl : name = name' := String.toList_inj.1 heq
      rw [escape_eq_flatMap, escape_eq_flatMap] at heq'
      obtain rfl : value = value' := String.toList_inj.1 (escape_inj heq')
      rw [ih hnames hnames' (List.cons_eq_cons.1 hrest).2]

section OpenTag

variable {kind kind' : String} {attributes attributes' : Attributes}

/-- An opening tag tells the kind, which ends at the first space, and the attributes. -/
theorem openTag_inj (h : TagNamed kind attributes) (h' : TagNamed kind' attributes')
    (heq : openTag kind attributes = openTag kind' attributes') :
    kind = kind' ∧ attributes = attributes' := by
  have hspace {name : String} (h : IsName name) : ' ' ∉ name.toList :=
    notMem_of_isName h (.inl rfl)
  have hhead (as : List (String × String)) : ∀ c ∈ (as.flatMap attributeChars).head?, c = ' ' := by
    cases as <;> simp [attributeChars]
  obtain ⟨hkinds, hentries⟩ := append_inj_of_delimited (hspace h.1) (hspace h'.1)
    (hhead _) (hhead _) heq
  exact ⟨String.toList_inj.1 hkinds,
    NameTable.eq_of_entries_eq (attributeChars_inj h.2 h'.2 hentries)⟩

/-- It does not begin with a slash, as closing tags do. -/
theorem slash_cons_ne_openTag (hkind : IsName kind) (attributes : Attributes) (cs ds : List Char) :
    '/' :: cs ≠ openTag kind attributes ++ ds := by
  obtain ⟨c, es, hes⟩ := List.exists_cons_of_ne_nil (mt String.toList_eq_nil_iff.1 hkind.1)
  have hslash : '/' ∉ kind.toList := notMem_of_isName hkind (.inr (by decide))
  rw [openTag, hes, List.cons_append, List.cons_append]
  intro h
  obtain rfl := (List.cons_eq_cons.1 h).1
  exact hslash (hes ▸ List.mem_cons_self)

/-- Nor does it end with one, as the tags of elements without children do. -/
theorem openTag_ne_concat_slash (hkind : IsName kind) (attributes : Attributes) (cs : List Char) :
    openTag kind attributes ≠ cs ++ ['/'] := by
  have hslash : '/' ∉ kind.toList := notMem_of_isName hkind (.inr (by decide))
  have hlast (as : List (String × String)) :
      (as.flatMap attributeChars).getLast? ≠ some '/' := by
    induction as with
    | nil => simp
    | cons a as ih =>
      rw [List.flatMap_cons, List.getLast?_append]
      cases hrest : (as.flatMap attributeChars).getLast? with
      | none => simp [attributeChars, List.getLast?_cons]
      | some c => rwa [hrest] at ih
  intro h
  have hend := congrArg List.getLast? h
  rw [List.getLast?_concat, openTag, List.getLast?_append] at hend
  cases hrest : (attributes.entries.flatMap attributeChars).getLast? with
  | none =>
    rw [hrest] at hend
    exact hslash (List.mem_of_getLast? hend)
  | some c =>
    rw [hrest] at hend
    exact hlast attributes.entries (hrest.trans hend)

end OpenTag

/-- The names in a mark are names. -/
def Mark.IsNamed : Mark → Prop
  | .opening kind attributes => TagNamed kind attributes
  | .closing kind => IsName kind
  | .single kind attributes => TagNamed kind attributes
  | .word _ => True

/-- A mark is determined by how it is written. -/
theorem Mark.eq_of_token_eq {m m' : Mark} (hm : m.IsNamed) (hm' : m'.IsNamed)
    (h : m.token = m'.token) : m = m' := by
  cases m <;> cases m' <;>
    simp only [Mark.token, Token.tag.injEq, Token.word.injEq, reduceCtorEq] at h
  case opening.opening =>
    obtain ⟨rfl, rfl⟩ := openTag_inj hm hm' h
    rfl
  case opening.closing =>
    rw [← List.append_nil (openTag _ _)] at h
    exact absurd h.symm (slash_cons_ne_openTag hm.1 _ _ _)
  case opening.single => exact absurd h (openTag_ne_concat_slash hm.1 _ _)
  case closing.opening =>
    rw [← List.append_nil (openTag _ _)] at h
    exact absurd h (slash_cons_ne_openTag hm'.1 _ _ _)
  case closing.closing => rw [String.toList_inj.1 (List.cons_eq_cons.1 h).2]
  case closing.single => exact absurd h (slash_cons_ne_openTag hm'.1 _ _ _)
  case single.opening => exact absurd h.symm (openTag_ne_concat_slash hm'.1 _ _)
  case single.closing => exact absurd h.symm (slash_cons_ne_openTag hm.1 _ _ _)
  case single.single =>
    obtain ⟨rfl, rfl⟩ := openTag_inj hm hm' (List.append_cancel_right h)
    rfl
  case word.word => rw [escape_inj h]

theorem eq_of_map_token_eq {ms ms' : List Mark} (hms : ∀ m ∈ ms, m.IsNamed)
    (hms' : ∀ m ∈ ms', m.IsNamed) (h : ms.map Mark.token = ms'.map Mark.token) : ms = ms' := by
  induction ms generalizing ms' with
  | nil => exact (List.map_eq_nil_iff.1 h.symm).symm
  | cons m ms ih =>
    cases ms' with
    | nil => cases h
    | cons m' ms' =>
      obtain ⟨hm, hms⟩ := List.forall_mem_cons.1 hms
      obtain ⟨hm', hms'⟩ := List.forall_mem_cons.1 hms'
      obtain ⟨hhead, htail⟩ := List.cons_eq_cons.1 h
      rw [Mark.eq_of_token_eq hm hm' hhead, ih hms hms' htail]

mutual

theorem isNamed_of_mem_marks : (t : Node) → Named t → ∀ m ∈ marks t, m.IsNamed
  | .text value, _ => by
    intro m hm
    obtain ⟨w, -, rfl⟩ := List.mem_map.1 hm
    trivial
  | .element _ _ [], h => List.forall_mem_singleton.2 h.1
  | .element _ _ (n :: ns), h =>
    List.forall_mem_cons.2 ⟨h.1, List.forall_mem_append.2
      ⟨isNamed_of_mem_marksOf (n :: ns) h.2, List.forall_mem_singleton.2 h.1.1⟩⟩

theorem isNamed_of_mem_marksOf : (ts : List Node) → AllNamed ts → ∀ m ∈ marksOf ts, m.IsNamed
  | [], _ => List.forall_mem_nil _
  | t :: ts, h => List.forall_mem_append.2
    ⟨isNamed_of_mem_marks t h.1, isNamed_of_mem_marksOf ts h.2⟩

end

/-- **The tags of a tree determine its elements**, with their nesting, kinds and attributes, and the
words between every two tags. -/
theorem render_determines {t u : Node} (ht : Named t) (hu : Named u) (h : render t = render u) :
    elements t = elements u ∧ marks t = marks u := by
  have hscan := congrArg scan (String.ofList_injective h)
  have htscan := scan_nodeChars 0 [] t ht
  have huscan := scan_nodeChars 0 [] u hu
  rw [List.append_nil] at htscan huscan
  rw [htscan, huscan] at hscan
  have hmarks := eq_of_map_token_eq (isNamed_of_mem_marks t ht) (isNamed_of_mem_marks u hu)
    (List.append_cancel_right hscan)
  exact ⟨elements_eq_of_marks_eq hmarks, hmarks⟩

/-- Two runs of text are written like one run that is set on two lines. -/
theorem render_determines_lines :
    let b : Node := .element "b" (.ofList [("n", "\"1\" > 0")]) []
    let runs : Node := .element "a" .empty [.text "x <", .text "y", b]
    let run : Node := .element "a" .empty [.text "x <\n  y", b]
    runs ≠ run ∧ render runs = render run ∧ elements runs = elements run ∧
      marks runs = marks run := by
  intro b runs run
  have ha : TagNamed "a" .empty := ⟨by decide, List.forall_mem_nil _⟩
  have hb : Named b := ⟨⟨by decide, List.forall_mem_singleton.2 (by decide)⟩, trivial⟩
  have hruns : Named runs := ⟨ha, trivial, trivial, hb, trivial⟩
  have hrun : Named run := ⟨ha, trivial, hb, trivial⟩
  have hrender : render runs = render run := by decide
  exact ⟨by decide, hrender, render_determines hruns hrun hrender⟩

end FragmentParser.Format.Tag
