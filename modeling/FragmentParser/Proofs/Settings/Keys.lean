import FragmentParser.Proofs.Settings.Singles

/-!
# The keys of the settings

Of all that a table of values may hold, the settings are read from five keys. A table `Holds` a
value for each of them, and reading it converts these five values and nothing else
(`Holds.ofSetting_eq_ok_iff`).

What is put into a table that holds values comes down to **entries**, each a key and a value laid
over what the key had (`entries?`): putting the value `Assigns` the entries (`assigns_put`), and a
key for which there is no entry keeps its value. A value that is no table replaces the one that it
is laid over, so among the values of a key the last one counts (`foldl_laid_eq_last`).
-/

namespace FragmentParser.Settings

open Setting

/-- What can be set. -/
inductive Key where
  | grammar
  | chunking
  | trace
  | format
  | labelWidth
deriving DecidableEq

namespace Key

/-- The section of a key, and its name there. -/
def parts : Key → String × String
  | grammar => ("parse", "grammar")
  | chunking => ("parse", "chunking")
  | trace => ("trace", "enabled")
  | format => ("output", "format")
  | labelWidth => ("output", "label_width")

theorem parts_injective {a b : Key} (h : a.parts = b.parts) : a = b := by
  cases a <;> cases b <;> first | rfl | exact absurd h (by decide)

/-- The key with a name in a section. -/
def ofParts? (sec name : String) : Option Key :=
  [grammar, chunking, trace, format, labelWidth].find? fun key ↦ key.parts = (sec, name)

theorem parts_of_ofParts? {sec name : String} {key : Key} (h : ofParts? sec name = some key) :
    key.parts = (sec, name) := by
  simpa using List.find?_some h

/-- The type of a setting. -/
def Value : Key → Type
  | grammar | format => String
  | chunking => Chunking
  | trace => Bool
  | labelWidth => Nat

instance : (key : Key) → DecidableEq key.Value
  | grammar | format => inferInstanceAs (DecidableEq String)
  | chunking => inferInstanceAs (DecidableEq Chunking)
  | trace => inferInstanceAs (DecidableEq Bool)
  | labelWidth => inferInstanceAs (DecidableEq Nat)

/-- The conversion of a value to the type of its setting. -/
def convert : (key : Key) → Setting → Except SettingsError key.Value
  | grammar | format => toText
  | chunking => toChunking
  | trace => toBool
  | labelWidth => toWidth

/-- What settings have for a key. -/
def valueIn (settings : Settings) : (key : Key) → key.Value
  | grammar => settings.grammar
  | chunking => settings.chunking
  | trace => settings.trace
  | format => settings.format
  | labelWidth => settings.labelWidth

/-- The value of a key where no layer says otherwise. -/
def default (key : Key) : Setting :=
  ((defaults.get? key.parts.1).bind (·.get? key.parts.2)).getD .nothing

end Key

/-! ### Values laid over others -/

/-- What comes of a value that is laid over another: of two tables both remain. -/
def laid (before : Setting) : Setting → Setting
  | .table incoming => mergeFields incoming before
  | value => value

theorem laid_of_not_isTable (before : Setting) {value : Setting} (h : ¬IsTable value) :
    laid before value = value := by
  rw [laid]
  intro incoming hvalue
  exact h ⟨incoming, hvalue⟩

/-- **The last value counts**, unless it is a table. -/
theorem foldl_laid_eq_last {before last : Setting} {values : List Setting}
    (hlast : values.getLast?.getD before = last) (h : ¬IsTable last) :
    values.foldl laid before = last := by
  cases hvalues : values.getLast? with
  | none =>
    rw [hvalues] at hlast
    rw [List.getLast?_eq_none_iff.1 hvalues]
    exact hlast
  | some value =>
    obtain ⟨init, rfl⟩ := List.getLast?_eq_some_iff.1 hvalues
    rw [hvalues, Option.getD_some] at hlast
    rw [List.foldl_append, hlast]
    exact laid_of_not_isTable _ h

/-- Merging lays the value over the one under its key, which is in small letters. -/
theorem get?_merge (name : String) (value into : Setting) (k : String) :
    (merge name value into).get? k =
      if k = foldKey name then some (laid ((into.get? (foldKey name)).getD (.table [])) value)
      else into.get? k := by
  cases value with
  | table incoming =>
    rw [merge]
    exact lookup_putField ..
  | _ =>
    rw [merge]
    · exact lookup_putField ..
    · intro incoming h
      cases h

/-! ### Entries -/

/-- A value for a key. -/
abbrev Entry : Type := Key × Setting

/-- The values for a key. -/
def valuesAt (key : Key) (entries : List Entry) : List Setting :=
  entries.filterMap fun e ↦ if e.1 = key then some e.2 else none

/-- The value of a key after entries. -/
def after (entries : List Entry) (w : Key → Setting) (key : Key) : Setting :=
  (valuesAt key entries).foldl laid (w key)

theorem after_append (first second : List Entry) (w : Key → Setting) :
    after (first ++ second) w = after second (after first w) := by
  funext key
  rw [after, valuesAt, List.filterMap_append, List.foldl_append]
  rfl

theorem after_cons_self (key : Key) (value : Setting) (entries : List Entry) (w : Key → Setting) :
    after ((key, value) :: entries) w key =
      (valuesAt key entries).foldl laid (laid (w key) value) := by
  have hfirst : valuesAt key ((key, value) :: entries) = value :: valuesAt key entries :=
    List.filterMap_cons_some (if_pos rfl)
  rw [after, hfirst, List.foldl_cons]

theorem after_of_forall_ne {key : Key} {entries : List Entry} (h : ∀ e ∈ entries, e.1 ≠ key)
    (w : Key → Setting) : after entries w key = w key := by
  have hnone : valuesAt key entries = [] :=
    List.filterMap_eq_nil_iff.2 fun e he ↦ if_neg (h e he)
  rw [after, hnone, List.foldl_nil]

/-- The entries that fields of a section come to, if all of them are keys. -/
def sectionEntries? (sec : String) (fields : List (String × Setting)) : Option (List Entry) :=
  fields.mapM fun (name, value) ↦ (Key.ofParts? sec (foldKey name)).map (·, value)

/-- The entries that a value at a path comes to, if it sets nothing but keys. -/
def entries? : Path → Setting → Option (List Entry)
  | [.key sec], .table fields => sectionEntries? (foldKey sec) fields
  | [.key sec, .key name], value => sectionEntries? sec [(name, value)]
  | _, _ => none

theorem sectionEntries?_cons {sec name : String} {value : Setting}
    {fields : List (String × Setting)} {entries : List Entry}
    (h : sectionEntries? sec ((name, value) :: fields) = some entries) :
    ∃ key rest, key.parts = (sec, foldKey name) ∧ sectionEntries? sec fields = some rest ∧
      entries = (key, value) :: rest := by
  rw [sectionEntries?, List.mapM_cons, Option.bind_eq_bind, Option.bind_eq_some_iff] at h
  obtain ⟨e, he, h⟩ := h
  obtain ⟨key, hkey, rfl⟩ := Option.map_eq_some_iff.1 he
  obtain ⟨rest, hrest, h⟩ := Option.bind_eq_some_iff.1 h
  cases h
  exact ⟨key, rest, Key.parts_of_ofParts? hkey, hrest, rfl⟩

theorem section_eq_of_mem {sec : String} {fields : List (String × Setting)} {entries : List Entry}
    (h : sectionEntries? sec fields = some entries) : ∀ e ∈ entries, e.1.parts.1 = sec := by
  induction fields generalizing entries with
  | nil =>
    cases h
    intro e he
    cases he
  | cons field fields ih =>
    obtain ⟨key, rest, hkey, hrest, rfl⟩ := sectionEntries?_cons h
    intro e he
    rcases List.mem_cons.1 he with rfl | he
    · rw [hkey]
    · exact ih hrest e he

/-! ### Tables that hold values -/

/-- The section has the values of its keys. -/
def HoldsIn (sec : String) (s : Setting) (w : Key → Setting) : Prop :=
  ∀ key : Key, key.parts.1 = sec → s.get? key.parts.2 = some (w key)

/-- The table has the values of all keys. -/
def Holds (root : Setting) (w : Key → Setting) : Prop :=
  ∀ key : Key, ∃ s, root.get? key.parts.1 = some s ∧ HoldsIn key.parts.1 s w

theorem holds_defaults : Holds defaults Key.default := by
  intro key
  cases key <;> refine ⟨_, rfl, fun other hother ↦ ?_⟩ <;>
    cases other <;> first | rfl | exact absurd hother (by decide)

/-- What fields of a section are merged with comes to the entries of the fields. -/
theorem HoldsIn.mergeFields {sec : String} {fields : List (String × Setting)}
    {entries : List Entry} (hentries : sectionEntries? sec fields = some entries) {s : Setting}
    {w : Key → Setting} (h : HoldsIn sec s w) :
    HoldsIn sec (Setting.mergeFields fields s) (after entries w) := by
  induction fields generalizing entries s w with
  | nil =>
    cases hentries
    exact h
  | cons field fields ih =>
    obtain ⟨name, value⟩ := field
    obtain ⟨key, rest, hkey, hrest, rfl⟩ := sectionEntries?_cons hentries
    have hmerge : HoldsIn sec (merge name value s) (after [(key, value)] w) := by
      intro other hother
      have hiff : other.parts.2 = foldKey name ↔ other = key := by
        refine ⟨fun hname ↦ Key.parts_injective ?_, fun hother ↦ by rw [hother, hkey]⟩
        rw [hkey, ← hother, ← hname]
      have hbefore := h key (by rw [hkey])
      rw [hkey] at hbefore
      rw [get?_merge, hbefore, Option.getD_some]
      by_cases heq : other = key
      · rw [if_pos (hiff.2 heq), heq, after_cons_self]
        rfl
      · rw [if_neg (mt hiff.1 heq), h other hother, after_of_forall_ne]
        intro e he
        rw [List.mem_singleton.1 he]
        exact Ne.symm heq
    rw [Setting.mergeFields, ← List.singleton_append, after_append]
    exact ih hrest hmerge

/-- Merging fields into one section comes to the entries of the fields. -/
theorem Holds.mergeSection {root root' : Setting} {w : Key → Setting} (h : Holds root w)
    {sec : String} {fields : List (String × Setting)} {entries : List Entry}
    (hentries : sectionEntries? sec fields = some entries) (fallback : Setting)
    (hget : ∀ k, root'.get? k =
      if k = sec then some (Setting.mergeFields fields ((root.get? sec).getD fallback))
      else root.get? k) :
    Holds root' (after entries w) := by
  intro key
  obtain ⟨s, hs, hvalues⟩ := h key
  rw [hget]
  by_cases hsec : key.parts.1 = sec
  · rw [hsec] at hs hvalues ⊢
    rw [if_pos rfl, hs]
    exact ⟨_, rfl, hvalues.mergeFields hentries⟩
  · rw [if_neg hsec]
    refine ⟨s, hs, fun other hother ↦ ?_⟩
    rw [after_of_forall_ne, hvalues other hother]
    intro e he heq
    rw [← hother, ← heq] at hsec
    exact hsec (section_eq_of_mem hentries e he)

/-- What is done to a table lays the entries over the values that it holds. -/
def Assigns (entries : List Entry) (f : Setting → Setting) : Prop :=
  ∀ ⦃root w⦄, Holds root w → Holds (f root) (after entries w)

theorem assigns_nil : Assigns [] fun into ↦ into := fun _ _ h ↦ h

theorem Assigns.comp {first second : List Entry} {f g : Setting → Setting} (hf : Assigns first f)
    (hg : Assigns second g) : Assigns (first ++ second) fun into ↦ g (f into) := by
  intro root w h
  rw [after_append]
  exact hg (hf h)

/-- **Putting a value assigns its entries.** -/
theorem assigns_put {path : Path} {value : Setting} {entries : List Entry}
    (hentries : entries? path value = some entries) : Assigns entries (put value path) := by
  intro root w h
  unfold entries? at hentries
  split at hentries
  · refine h.mergeSection hentries (.table []) fun k ↦ ?_
    rw [put, get?_merge]
    rfl
  · refine h.mergeSection hentries .nothing fun k ↦ ?_
    rw [put, put]
    · exact lookup_putField ..
    · intro hnil
      cases hnil
  · cases hentries

/-- What is done one after another assigns all entries in their order. -/
theorem assigns_foldl {α : Type} {f : Setting → α → Setting} {g : α → Option (List Entry)}
    (hf : ∀ a entries, g a = some entries → Assigns entries fun into ↦ f into a) {as : List α}
    {all : List (List Entry)} (hall : as.mapM g = some all) :
    Assigns all.flatten fun into ↦ as.foldl f into := by
  induction as generalizing all with
  | nil =>
    cases hall
    exact assigns_nil
  | cons a as ih =>
    rw [List.mapM_cons, Option.bind_eq_bind, Option.bind_eq_some_iff] at hall
    obtain ⟨entries, hentries, hall⟩ := hall
    obtain ⟨rest, hrest, hall⟩ := Option.bind_eq_some_iff.1 hall
    cases hall
    exact (hf a entries hentries).comp (ih hrest)

/-! ### Reading the five keys -/

/-- A value under a key is the part of that key, wherever a list would have it. -/
theorem part?_of_get? {s value : Setting} {key : String} (h : s.get? key = some value)
    (place : Nat) : s.part? key place = some value := by
  cases s with
  | table fields => exact h
  | _ => cases h

/-- Two parts of a section that are both there. -/
theorem required_pair_eq_ok_iff {α β : Type} {u : Except SettingsError α}
    {v : Except SettingsError β} {a : α} {b : β} :
    (do
      let first ← some <$> u
      let second ← some <$> v
      .ok (← required first, ← required second)) = Except.ok (a, b) ↔ u = .ok a ∧ v = .ok b := by
  cases u <;> cases v <;> simp [required, bind, Except.bind, Functor.map, Except.map]

theorem readParse_eq_ok_iff {s u v : Setting} {grammar : String} {chunking : Chunking}
    (hu : s.get? "grammar" = some u) (hv : s.get? "chunking" = some v) :
    readParse s = .ok (grammar, chunking) ↔
      u.toText = .ok grammar ∧ v.toChunking = .ok chunking := by
  rw [readParse, part?_of_get? hu, part?_of_get? hv, Option.mapM_some, Option.mapM_some]
  exact required_pair_eq_ok_iff

theorem readTrace_eq_ok_iff {s u : Setting} {trace : Bool} (hu : s.get? "enabled" = some u) :
    readTrace s = .ok trace ↔ u.toBool = .ok trace := by
  rw [readTrace, part?_of_get? hu, Option.mapM_some]
  cases u.toBool <;> simp [required, bind, Except.bind, Functor.map, Except.map]

theorem readOutput_eq_ok_iff {s u v : Setting} {format : String} {labelWidth : Nat}
    (hu : s.get? "format" = some u) (hv : s.get? "label_width" = some v) :
    readOutput s = .ok (format, labelWidth) ↔
      u.toText = .ok format ∧ v.toWidth = .ok labelWidth := by
  rw [readOutput, part?_of_get? hu, part?_of_get? hv, Option.mapM_some, Option.mapM_some]
  exact required_pair_eq_ok_iff

/-- What is read in a section that is there. -/
theorem mapM_part?_eq_ok_iff {α : Type} {root s : Setting} {sec : String}
    (h : root.get? sec = some s) (place : Nat) (read : Setting → Except SettingsError α) (a : α) :
    (root.part? sec place).mapM read = .ok (some a) ↔ read s = .ok a := by
  rw [part?_of_get? h, Option.mapM_some]
  cases read s <;> simp [Functor.map, Except.map]

/-- **The settings of a table are the values that it holds**, each converted for its key. -/
theorem Holds.ofSetting_eq_ok_iff {root : Setting} {w : Key → Setting} (h : Holds root w)
    {settings : Settings} :
    ofSetting root = .ok settings ↔
      ∀ key : Key, key.convert (w key) = .ok (key.valueIn settings) := by
  obtain ⟨parse, (hparse : root.get? "parse" = some parse), hparts⟩ := h .grammar
  obtain ⟨trace, (htrace : root.get? "trace" = some trace), hswitch⟩ := h .trace
  obtain ⟨output, (houtput : root.get? "output" = some output), hlook⟩ := h .format
  rw [Settings.ofSetting_eq_ok_iff, mapM_part?_eq_ok_iff hparse, mapM_part?_eq_ok_iff htrace,
    mapM_part?_eq_ok_iff houtput, readParse_eq_ok_iff (hparts .grammar rfl) (hparts .chunking rfl),
    readTrace_eq_ok_iff (hswitch .trace rfl),
    readOutput_eq_ok_iff (hlook .format rfl) (hlook .labelWidth rfl)]
  constructor
  · rintro ⟨⟨hgrammar, hchunking⟩, hon, hformat, hwidth⟩ key
    cases key <;> assumption
  · intro hall
    exact ⟨⟨hall .grammar, hall .chunking⟩, hall .trace, hall .format, hall .labelWidth⟩

/-- Settings with given values. -/
def ofValues (values : (key : Key) → key.Value) : Settings where
  grammar := values .grammar
  chunking := values .chunking
  trace := values .trace
  format := values .format
  labelWidth := values .labelWidth

theorem valueIn_ofValues (values : (key : Key) → key.Value) (key : Key) :
    key.valueIn (ofValues values) = values key := by
  cases key <;> rfl

/-- **There are no settings in a table just if a value that it holds cannot be converted.** -/
theorem Holds.ofSetting_eq_error_iff {root : Setting} {w : Key → Setting} (h : Holds root w) :
    (∃ e, ofSetting root = .error e) ↔ ∃ (key : Key) (e : SettingsError),
      key.convert (w key) = .error e := by
  constructor
  · rintro ⟨e, he⟩
    by_cases hall : ∃ (key : Key) (e : SettingsError), key.convert (w key) = .error e
    · exact hall
    have hvalues (key : Key) : ∃ value, key.convert (w key) = .ok value := by
      cases hkey : key.convert (w key) with
      | ok value => exact ⟨value, rfl⟩
      | error e => exact absurd ⟨key, e, hkey⟩ hall
    obtain ⟨values, hvalues⟩ := Classical.axiomOfChoice hvalues
    have hok : ofSetting root = .ok (ofValues values) :=
      h.ofSetting_eq_ok_iff.2 fun key ↦ by rw [hvalues, valueIn_ofValues]
    cases he.symm.trans hok
  · rintro ⟨key, e, hkey⟩
    cases hroot : ofSetting root with
    | error e => exact ⟨e, rfl⟩
    | ok settings => cases hkey.symm.trans (h.ofSetting_eq_ok_iff.1 hroot key)

end FragmentParser.Settings
