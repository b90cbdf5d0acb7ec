/-!
# Tables by name

Values under names, each name once, **in the order of the names** by code point: the attributes of
an element, the grammars and the formats that a program knows. The order is part of the type, so
two tables with the same values under the same names are equal, however they were put together.
-/

namespace FragmentParser

/-- The value under a key in pairs that begin with `p`. -/
theorem lookup_cons_eq {α : Type} (p : String × α) (pairs : List (String × α)) (k : String) :
    (p :: pairs).lookup k = if k = p.1 then some p.2 else pairs.lookup k := by
  obtain ⟨n, v⟩ := p
  by_cases h : k = n
  · simp [h]
  · simp [List.lookup_cons, beq_eq_false_iff_ne.2 h, h]

/-- Values under names, by increasing name. -/
structure NameTable (α : Type) where
  /-- The pairs of a name and its value. -/
  entries : List (String × α)
  /-- The names increase. -/
  sorted : entries.Pairwise fun a b ↦ a.1 < b.1
deriving DecidableEq

namespace NameTable

variable {α : Type}

/-- A table is its entries. -/
theorem eq_of_entries_eq {t u : NameTable α} (h : t.entries = u.entries) : t = u := by
  cases t
  cases u
  cases h
  rfl

/-- The table without entries. -/
def empty : NameTable α := ⟨[], .nil⟩

instance : Inhabited (NameTable α) := ⟨empty⟩

/-- Put a pair at its place, over the one with the same name. -/
def insertEntry (name : String) (value : α) : List (String × α) → List (String × α)
  | [] => [(name, value)]
  | (n, v) :: rest =>
    if name < n then (name, value) :: (n, v) :: rest
    else if name = n then (name, value) :: rest
    else (n, v) :: insertEntry name value rest

/-- Only the given name comes to the names that were there. -/
theorem mem_insertEntry {name : String} {value : α} {entries : List (String × α)}
    {p : String × α} (h : p ∈ insertEntry name value entries) :
    p = (name, value) ∨ p ∈ entries := by
  induction entries with
  | nil => simpa [insertEntry] using h
  | cons e rest ih =>
    obtain ⟨n, v⟩ := e
    simp only [insertEntry] at h
    split at h
    · simpa using h
    · split at h
      · rcases List.mem_cons.1 h with rfl | h
        · exact .inl rfl
        · exact .inr (List.mem_cons_of_mem _ h)
      · rcases List.mem_cons.1 h with rfl | h
        · exact .inr (List.mem_cons_self ..)
        · exact (ih h).imp_right (List.mem_cons_of_mem _)

/-- Under the name there is the given value, and under the others what was there. -/
theorem lookup_insertEntry (name : String) (value : α) (entries : List (String × α)) (k : String) :
    (insertEntry name value entries).lookup k =
      if k = name then some value else entries.lookup k := by
  induction entries with
  | nil => simp [insertEntry, lookup_cons_eq]
  | cons e rest ih =>
    obtain ⟨n, v⟩ := e
    simp only [insertEntry]
    split
    next => simp [lookup_cons_eq]
    next =>
      split
      next heq =>
        subst heq
        simp only [lookup_cons_eq]
        grind
      next hne =>
        simp only [lookup_cons_eq, ih]
        grind

/-- The names still increase. -/
theorem pairwise_insertEntry {name : String} {value : α} {entries : List (String × α)}
    (h : entries.Pairwise fun a b ↦ a.1 < b.1) :
    (insertEntry name value entries).Pairwise fun a b ↦ a.1 < b.1 := by
  induction entries with
  | nil => simp [insertEntry]
  | cons e rest ih =>
    obtain ⟨n, v⟩ := e
    obtain ⟨hn, hrest⟩ := List.pairwise_cons.1 h
    simp only [insertEntry]
    split
    next hlt =>
      refine List.pairwise_cons.2 ⟨fun p hp ↦ ?_, h⟩
      rcases List.mem_cons.1 hp with rfl | hp
      · exact hlt
      · exact String.lt_trans hlt (hn p hp)
    next hge =>
      split
      next heq =>
        subst heq
        exact List.pairwise_cons.2 ⟨hn, hrest⟩
      next hne =>
        refine List.pairwise_cons.2 ⟨fun p hp ↦ ?_, ih hrest⟩
        rcases mem_insertEntry hp with rfl | hp
        · exact String.not_le.1 fun hle ↦
            hne (String.le_antisymm hle (String.not_lt.1 hge))
        · exact hn p hp

/-- Put a value under a name, in place of the one that was there. -/
def insert (t : NameTable α) (name : String) (value : α) : NameTable α :=
  ⟨insertEntry name value t.entries, pairwise_insertEntry t.sorted⟩

/-- The table of a list of pairs; of two with one name the later counts. -/
def ofList (pairs : List (String × α)) : NameTable α :=
  pairs.foldl (fun t p ↦ t.insert p.1 p.2) empty

/-- The value under a name. -/
def get? (t : NameTable α) (name : String) : Option α := t.entries.lookup name

@[simp] theorem get?_empty (k : String) : (empty : NameTable α).get? k = none := rfl

/-- A table gives back what was put into it last under a name. -/
theorem get?_insert (t : NameTable α) (name : String) (value : α) (k : String) :
    (t.insert name value).get? k = if k = name then some value else t.get? k :=
  lookup_insertEntry name value t.entries k

/-- Whether there is a value under the name. -/
def has (t : NameTable α) (name : String) : Bool := (t.get? name).isSome

/-- The names, which increase. -/
def names (t : NameTable α) : List String := t.entries.map Prod.fst

/-- Whether the table has no entries. -/
def isEmpty (t : NameTable α) : Bool := t.entries.isEmpty

example : (ofList [("b", 1), ("a", 2), ("b", 3)]).entries = [("a", 2), ("b", 3)] := by decide

end NameTable

/-- The attributes of an element. -/
abbrev Attributes : Type := NameTable String

end FragmentParser
