import FragmentParser.Format.Catalog
import FragmentParser.Proofs.Json.Printing
import FragmentParser.Proofs.Json.Reading
import Mathlib.Data.List.Forall2

/-!
# Trees come back from their JSON

A tree is written as one value, but it is read from many. The fields of an element may stand in any
order, among fields of other names; empty attributes and children may be left out or given; and an
element may be an array of its three parts. `Node.WrittenAs t j` says that `j` is one of the values
for `t`.

A tree is read from every text of every such value (`Node.parseJson_of_writtenAs`). The text that is
written is one of them, so writing and reading gives the tree back. What this rests on is that each
field is found by its name alone: the fields of one name are the same in every order
(`Node.fieldsNamed_perm`), and a table of attributes does not remember in which order it was filled
(`NameTable.ofList_of_perm`).
-/

namespace FragmentParser

namespace NameTable

variable {α : Type}

/-- A new name is entered once, and nothing is replaced. -/
theorem insertEntry_perm {name : String} {entries : List (String × α)}
    (h : name ∉ entries.map Prod.fst) (value : α) :
    (insertEntry name value entries).Perm ((name, value) :: entries) := by
  induction entries with
  | nil => exact .refl _
  | cons e entries ih =>
    obtain ⟨n, v⟩ := e
    rw [List.map_cons, List.mem_cons, not_or] at h
    rw [insertEntry]
    split
    · exact .refl _
    · rw [if_neg h.1]
      exact ((ih h.2).cons (n, v)).trans (.swap ..)

/-- Entering pairs of different names keeps all of them. -/
theorem foldl_insert_perm (pairs : List (String × α)) (t : NameTable α)
    (h : ((pairs ++ t.entries).map Prod.fst).Nodup) :
    (pairs.foldl (fun t p ↦ t.insert p.1 p.2) t).entries.Perm (pairs ++ t.entries) := by
  induction pairs generalizing t with
  | nil => exact .refl _
  | cons p pairs ih =>
    rw [List.cons_append, List.map_cons, List.nodup_cons] at h
    have hnew : p.1 ∉ t.entries.map Prod.fst := fun hp ↦
      h.1 (List.map_subset Prod.fst (List.subset_append_right pairs _) hp)
    have hentries : (pairs ++ (t.insert p.1 p.2).entries).Perm (p :: (pairs ++ t.entries)) :=
      ((insertEntry_perm hnew p.2).append_left pairs).trans List.perm_middle
    refine (ih _ ?_).trans hentries
    exact (hentries.map Prod.fst).nodup_iff.2 (List.nodup_cons.2 h)

/-- A table is filled from its entries in any order. -/
theorem ofList_of_perm {pairs : List (String × α)} {t : NameTable α} (h : pairs.Perm t.entries) :
    ofList pairs = t := by
  have hnodup : (t.entries.map Prod.fst).Nodup :=
    List.pairwise_map.2 (t.sorted.imp fun hlt ↦ String.ne_of_lt hlt)
  have hperm := foldl_insert_perm pairs empty (by
    rw [show (empty : NameTable α).entries = [] from rfl, List.append_nil]
    exact (h.map Prod.fst).nodup_iff.2 hnodup)
  rw [show (empty : NameTable α).entries = [] from rfl, List.append_nil] at hperm
  have hentries : (ofList pairs).entries = t.entries :=
    (hperm.trans h).eq_of_pairwise (fun _ _ _ _ hab hba ↦ absurd hba (String.lt_asymm hab))
      (ofList pairs).sorted t.sorted
  exact eq_of_entries_eq hentries

end NameTable

namespace Node

open Json (IsGap IsText Printable PrintableItems)

/-! ### The values that a tree is read from -/

/-- The names of the fields of an element. -/
def fieldNames : List String := ["kind", "attributes", "children"]

/-- Attributes as an object of texts, in any order. -/
inductive AttributesWritten (as : Attributes) : Json → Prop
  | written {pairs : List (String × String)} : pairs.Perm as.entries →
      AttributesWritten as (.object (pairs.map fun (name, value) ↦ (name, .string value)))

/-- The field of the attributes, which may be left out when there are none. -/
inductive AttributesField : Attributes → List (String × Json) → Prop
  | omitted : AttributesField .empty []
  | given {as : Attributes} {j : Json} : AttributesWritten as j →
      AttributesField as [("attributes", j)]

/-- The field of the children, which may be left out when there are none. -/
inductive ChildrenField (written : Node → Json → Prop) : List Node → List (String × Json) → Prop
  | omitted : ChildrenField written [] []
  | given {children : List Node} {items : List Json} : List.Forall₂ written children items →
      ChildrenField written children [("children", .array items)]

/-- The values that are read as a tree. -/
inductive WrittenAs : Node → Json → Prop
  | text {s : String} : WrittenAs (.text s) (.string s)
  /-- The fields of an element in any order, with others among them. -/
  | fields {kind : String} {as : Attributes} {children : List Node}
      {attributesField childrenField others fields : List (String × Json)} :
      AttributesField as attributesField → ChildrenField WrittenAs children childrenField →
      (∀ f ∈ others, f.1 ∉ fieldNames) →
      fields.Perm ((("kind", .string kind) :: (attributesField ++ childrenField)) ++ others) →
      WrittenAs (.element kind as children) (.object fields)
  /-- The parts of an element by their position. -/
  | parts {kind : String} {as : Attributes} {children : List Node} {attributes : Json}
      {items : List Json} : AttributesWritten as attributes →
      List.Forall₂ WrittenAs children items →
      WrittenAs (.element kind as children) (.array [.string kind, attributes, .array items])

/-! ### Reading a value -/

theorem fieldsNamed_perm (name : String) {fields fields' : List (String × Json)}
    (h : fields.Perm fields') : (fieldsNamed name fields).Perm (fieldsNamed name fields') :=
  (h.filter _).map _

theorem fieldsNamed_append (name : String) (fields fields' : List (String × Json)) :
    fieldsNamed name (fields ++ fields') = fieldsNamed name fields ++ fieldsNamed name fields' := by
  rw [fieldsNamed, List.filter_append, List.map_append, fieldsNamed, fieldsNamed]

/-- Fields of other names are passed over. -/
theorem fieldsNamed_eq_nil {name : String} {others : List (String × Json)}
    (h : ∀ f ∈ others, f.1 ∉ fieldNames) (hname : name ∈ fieldNames) :
    fieldsNamed name others = [] := by
  rw [fieldsNamed, List.map_eq_nil_iff, List.filter_eq_nil_iff]
  intro f hf heq
  exact h f hf (of_decide_eq_true heq ▸ hname)

/-- Of the fields of an element, those of one name are found in every order. -/
theorem fieldsNamed_of_written {name : String} {fields known others : List (String × Json)}
    (hothers : ∀ f ∈ others, f.1 ∉ fieldNames) (h : fields.Perm (known ++ others))
    (hname : name ∈ fieldNames) : (fieldsNamed name fields).Perm (fieldsNamed name known) := by
  have hnamed := fieldsNamed_perm name h
  rwa [fieldsNamed_append, fieldsNamed_eq_nil hothers hname, List.append_nil] at hnamed

theorem childrenField?_of_nil {fields : List (String × Json)}
    (h : fieldsNamed "children" fields = []) : childrenField? fields = some [] := by
  induction fields with
  | nil => rfl
  | cons f fields ih =>
    obtain ⟨name, value⟩ := f
    by_cases hname : name = "children"
    · simp [fieldsNamed, hname] at h
    · rw [childrenField?, if_neg hname]
      exact ih (by simpa [fieldsNamed, hname] using h)

theorem childrenField?_of_singleton {fields : List (String × Json)} {j : Json}
    (h : fieldsNamed "children" fields = [j]) : childrenField? fields = childrenOfJson? j := by
  induction fields with
  | nil => simp [fieldsNamed] at h
  | cons f fields ih =>
    obtain ⟨name, value⟩ := f
    by_cases hname : name = "children"
    · obtain ⟨rfl, hrest⟩ : value = j ∧ fieldsNamed "children" fields = [] := by
        simpa [fieldsNamed, hname] using h
      rw [childrenField?, if_pos hname, hrest]
      rfl
    · rw [childrenField?, if_neg hname]
      exact ih (by simpa [fieldsNamed, hname] using h)

theorem attributesOfJson?_of_written {as : Attributes} {j : Json} (h : AttributesWritten as j) :
    attributesOfJson? j = some as := by
  cases h with
  | @written pairs hperm =>
    have hread : (pairs.map fun (p : String × String) ↦ (p.1, Json.string p.2)).mapM
        (fun f ↦ (textOfJson? f.2).map fun value ↦ (f.1, value)) = some pairs := by
      rw [List.mapM_map]
      exact (List.mapM_pure (m := Option) (f := id)).trans (congrArg some (List.map_id pairs))
    rw [attributesOfJson?, hread, Option.map_some, NameTable.ofList_of_perm hperm]

mutual

/-- A tree is read from each of its values. -/
theorem ofJson?_of_writtenAs : (t : Node) → {j : Json} → WrittenAs t j → ofJson? j = some t
  | .text s, _, h => by
    cases h
    rfl
  | .element kind as children, _, h => by
    cases h with
    | @fields _ _ _ _ _ _ fields hattributes hchildren hothers hperm =>
      -- of every name, the fields are those that are known of it, in whatever order
      have hkind : fieldsNamed "kind" fields = [.string kind] := by
        refine List.perm_singleton.1 ((fieldsNamed_of_written hothers hperm (by decide)).trans ?_)
        cases hattributes <;> cases hchildren <;> exact .refl _
      have hchildren' : childrenField? fields = some children := by
        have hnamed := fieldsNamed_of_written hothers hperm (show "children" ∈ fieldNames by decide)
        cases hchildren with
        | omitted =>
          refine childrenField?_of_nil (List.perm_nil.1 (hnamed.trans ?_))
          cases hattributes <;> exact .refl _
        | @given _ items hitems =>
          have hone : fieldsNamed "children" fields = [.array items] := by
            refine List.perm_singleton.1 (hnamed.trans ?_)
            cases hattributes <;> exact .refl _
          rw [childrenField?_of_singleton hone, childrenOfJson?,
            nodesOfJson?_of_forall₂ children hitems]
      have hnamed := fieldsNamed_of_written hothers hperm (show "attributes" ∈ fieldNames by decide)
      rw [ofJson?, hkind, hchildren']
      cases hattributes with
      | omitted =>
        have hnone : fieldsNamed "attributes" fields = [] := by
          refine List.perm_nil.1 (hnamed.trans ?_)
          cases hchildren <;> exact .refl _
        rw [hnone]
        rfl
      | @given _ j hj =>
        have hone : fieldsNamed "attributes" fields = [j] := by
          refine List.perm_singleton.1 (hnamed.trans ?_)
          cases hchildren <;> exact .refl _
        rw [hone]
        simp only [attributesOfJson?_of_written hj]
        rfl
    | parts hattributes hchildren =>
      rw [ofJson?]
      simp only [attributesOfJson?_of_written hattributes, childrenOfJson?,
        nodesOfJson?_of_forall₂ children hchildren, textOfJson?, bind, Option.bind]

theorem nodesOfJson?_of_forall₂ : (ts : List Node) → {js : List Json} →
    List.Forall₂ WrittenAs ts js → nodesOfJson? js = some ts
  | [], _, h => by
    cases h
    rfl
  | t :: ts, _, h => by
    cases h with
    | cons ht hts =>
      rw [nodesOfJson?, ofJson?_of_writtenAs t ht, nodesOfJson?_of_forall₂ ts hts]
      rfl

end

/-! ### Reading a text -/

/-- **A tree is read from every text of every one of its values**, with gaps around it. -/
theorem parseJson_of_writtenAs {t : Node} {j : Json} {a cs b : List Char} (ht : WrittenAs t j)
    (hj : IsText Json.Reader.maxNesting j cs) (ha : IsGap a) (hb : IsGap b) :
    parseJson (String.ofList (a ++ (cs ++ b))) = .ok t := by
  have hread : Json.Reader.read (String.ofList (a ++ (cs ++ b))) = .ok (j, b) := by
    rw [Json.Reader.read, String.toList_ofList]
    exact Json.Reader.value_of_isText hj ha (Json.Reader.endsNumber_of_isGap hb)
  have hend : Json.Reader.skipSpace b = [] := by
    have h := Json.Reader.skipSpace_append hb []
    rwa [List.append_nil] at h
  rw [parseJson, hread]
  simp only [ofJson?_of_writtenAs t ht, hend, List.isEmpty_nil, if_true]

/-! ### The value that is written -/

/-- The attributes as they are written. -/
def attributesToJson (as : Attributes) : List (String × Json) :=
  as.entries.map fun (name, value) ↦ (name, .string value)

theorem attributesField_toJson (as : Attributes) :
    AttributesField as (if (attributesToJson as).isEmpty then []
      else [("attributes", .object (attributesToJson as))]) := by
  obtain ⟨_ | ⟨e, entries⟩, sorted⟩ := as
  · exact .omitted
  · exact .given (.written (.refl _))

theorem childrenField_toJson {written : Node → Json → Prop} {children : List Node}
    (h : List.Forall₂ written children (childrenToJson children)) :
    ChildrenField written children (match childrenToJson children with
      | [] => []
      | items => [("children", .array items)]) := by
  cases children with
  | nil => exact .omitted
  | cons => exact .given h

mutual

theorem writtenAs_toJson : (t : Node) → WrittenAs t t.toJson
  | .text _ => .text
  | .element _ as children =>
    .fields (attributesField_toJson as) (childrenField_toJson (forall₂_childrenToJson children))
      (fun _ hf ↦ absurd hf List.not_mem_nil) (.of_eq (List.append_nil _).symm)

theorem forall₂_childrenToJson : (ts : List Node) → List.Forall₂ WrittenAs ts (childrenToJson ts)
  | [] => .nil
  | t :: ts => .cons (writtenAs_toJson t) (forall₂_childrenToJson ts)

end

mutual

/-- There are no numbers in a tree. -/
theorem printable_toJson : (t : Node) → Printable t.toJson
  | .text _ => trivial
  | .element _ as children => by
    have hattributes : Json.PrintableFields (attributesToJson as) := by
      rw [attributesToJson]
      induction as.entries with
      | nil => exact trivial
      | cons _ _ ih => exact ⟨trivial, ih⟩
    refine ⟨trivial, .append ?_ ?_⟩
    · split
      · exact trivial
      · exact ⟨hattributes, trivial⟩
    · split
      · exact trivial
      · exact ⟨printable_childrenToJson children, trivial⟩

theorem printable_childrenToJson : (ts : List Node) → PrintableItems (childrenToJson ts)
  | [] => trivial
  | t :: ts => ⟨printable_toJson t, printable_childrenToJson ts⟩

end

/-- **A tree whose JSON nests at most as deep as is read comes back from it**, and from every other
text that is written for it. -/
theorem json_roundTrip (t : Node) :
    (t.toJson.nesting ≤ Json.Reader.maxNesting →
      ∃ s, Format.json.write t = .ok s ∧ parseJson s = .ok t) ∧
    ∀ {j : Json} {a cs b : List Char}, WrittenAs t j → IsText Json.Reader.maxNesting j cs →
      IsGap a → IsGap b → parseJson (String.ofList (a ++ (cs ++ b))) = .ok t := by
  refine ⟨fun hnesting ↦ ⟨t.toJson.render, rfl, ?_⟩, parseJson_of_writtenAs⟩
  have h := parseJson_of_writtenAs (writtenAs_toJson t)
    (Json.isText_renderChars 0 t.toJson (printable_toJson t) hnesting) Json.isGap_nil Json.isGap_nil
  rwa [List.nil_append, List.append_nil] at h

/-- Fields in another order, a field that means nothing and an element in parts. -/
theorem json_roundTrip_reordered :
    let tree : Node := .element "a" .empty [.text "b\n", .element "c" .empty []]
    (∃ s, Format.json.write tree = .ok s ∧ parseJson s = .ok tree) ∧
      parseJson (" \x7b\n  \"children\": [\n    \"b\\n\",\n    [\n      \"c\",\n" ++
        "      \x7b\x7d,\n      []\n    ]\n  ],\n  \"x\": null,\n  \"kind\": \"a\"\n\x7d\n") =
        .ok tree := by
  intro tree
  let c : Json := .array [.string "c", .object [], .array []]
  let others : List (String × Json) := [("children", .array [.string "b\n", c]), ("x", .null)]
  let j : Json := .object (others ++ [("kind", .string "a")])
  obtain ⟨hwrite, hread⟩ := json_roundTrip tree
  have hc : WrittenAs (.element "c" .empty []) c :=
    .parts (@AttributesWritten.written _ [] (.refl _)) .nil
  have hx : ∀ f ∈ [("x", Json.null)], f.1 ∉ fieldNames := by
    simp [fieldNames]
  have htree : WrittenAs tree j :=
    .fields .omitted (.given (.cons .text (.cons hc .nil))) hx
      (List.perm_append_singleton ("kind", Json.string "a") others)
  have hj : IsText Json.Reader.maxNesting j (Json.renderChars 0 j) :=
    Json.isText_renderChars 0 j
      (by simp [j, others, c, Printable, Json.PrintableFields, PrintableItems]) (by decide)
  have hspace : IsGap [' '] ∧ IsGap ['\n'] := by
    simp [IsGap, Json.Reader.isSpace]
  refine ⟨hwrite (by decide), ?_⟩
  exact (congrArg parseJson (by decide)).trans (hread htree hj hspace.1 hspace.2)

end Node

end FragmentParser
