import FragmentParser.Proofs.Settings.Keys
import Mathlib.Data.List.Basic

/-!
# Layers, key by key

Layers that set nothing but keys come to one value for each key: what single values set is laid over
what files set, and both over the default (`value`). There are settings just if no file is missing
that has to be there and each of the five values can be converted (`build_eq_ok_iff`).

The files are laid one over another in their order, and the single values in theirs
(`exists_files`, `exists_singles`). Neither looks at layers of the other kind, so how files and
single values alternate does not matter (`build_eq_of_filter`), and neither does an optional file
that is not there (`build_filter_absent`). These two hold of any layers.

**The last value of a key counts**, with single values behind all files (`winner`), so a value that
another one replaces can do no harm (`build_key_by_key`). That is said of layers by which no key has
a table in the end. A table replaces nothing: its fields are merged with what is there, so with a
table as the last value of a key neither that value counts nor are the others harmless
(`not_forall_winner_counts`).
-/

namespace FragmentParser

open Settings

namespace Layer

/-- Whether the layer is a single value. -/
def isSingle : Layer → Bool
  | .set .. => true
  | _ => false

/-- Whether the layer is an optional file that is not there. -/
def isAbsent : Layer → Bool
  | .optionalFile none => true
  | _ => false

/-- The entries that the content of a file comes to, if it is a document that sets nothing but
keys. -/
def contentEntries? (content : String) : Option (List Entry) := do
  let fields ← Settings.Toml.parse (fileText content)
  let entries ← fields.mapM fun (key, value) ↦
    Settings.entries? ((parsePath key).getD [.key key]) value
  some entries.flatten

/-- The entries that a layer comes to, if it sets nothing but keys. -/
def entries? : Layer → Option (List Entry)
  | .file none | .optionalFile none => some []
  | .file (some content) | .optionalFile (some content) => contentEntries? content
  | .set text value => (parsePath text).bind (Settings.entries? · value)

/-- The entries of layers, in their order. -/
def allEntries (layers : List Layer) : List Entry :=
  layers.flatMap fun layer ↦ layer.entries?.getD []

end Layer

namespace Settings

open Setting Layer

/-- The values that files set for a key, in their order. -/
def fileValues (layers : List Layer) (key : Key) : List Setting :=
  valuesAt key (allEntries (layers.filter (!·.isSingle)))

/-- The values that are set singly for a key, in their order. -/
def singleValues (layers : List Layer) (key : Key) : List Setting :=
  valuesAt key (allEntries (layers.filter (·.isSingle)))

/-- The value that layers come to for a key: what files set is laid over the default, and what is
set singly over that. -/
def value (layers : List Layer) (key : Key) : Setting :=
  (fileValues layers key ++ singleValues layers key).foldl laid key.default

/-- The value that counts of those for a key: the last one that is set singly, else the last one
that a file sets, else the default. -/
def winner (layers : List Layer) (key : Key) : Setting :=
  ((singleValues layers key).getLast?.or (fileValues layers key).getLast?).getD key.default

/-- Layers come to the value that counts, unless that is a table, which is merged with the values
before it. -/
theorem value_eq_winner {layers : List Layer} {key : Key} (h : ¬IsTable (winner layers key)) :
    value layers key = winner layers key :=
  foldl_laid_eq_last (by rw [List.getLast?_append, winner]) h

theorem value_eq_after (layers : List Layer) :
    value layers = after
      (allEntries (layers.filter (!·.isSingle)) ++ allEntries (layers.filter (·.isSingle)))
      Key.default := by
  funext key
  rw [value, after, valuesAt, List.filterMap_append]
  rfl

/-! ### The two kinds of layers -/

/-- The single values do not depend on the files. -/
theorem overrides_filter (p : Layer → Bool) (hp : ∀ text value, p (.set text value) = true)
    (layers : List Layer) : overrides (layers.filter p) = overrides layers := by
  fun_induction overrides layers with
  | case1 => rfl
  | case2 text value rest path hpath ih =>
    rw [List.filter_cons_of_pos (hp text value), overrides, hpath]
    simp only [ih]
  | case3 text value rest hpath => rw [List.filter_cons_of_pos (hp text value), overrides, hpath]
  | case4 layer rest hlayer ih =>
    rw [List.filter_cons]
    split
    · rw [overrides.eq_3 _ _ hlayer, ih]
    · exact ih

/-- What the files come to does not depend on layers that leave every value as it is. -/
theorem putLayerFiles_filter {p : Layer → Bool}
    (hp : ∀ layer, p layer = false → ∀ into, putLayerFile into layer = .ok into)
    (layers : List Layer) (into : Setting) :
    (layers.filter p).foldlM putLayerFile into = layers.foldlM putLayerFile into := by
  induction layers generalizing into with
  | nil => rfl
  | cons layer layers ih =>
    rw [List.filter_cons, List.foldlM_cons]
    split
    · rw [List.foldlM_cons]
      cases putLayerFile into layer with
      | error e => rfl
      | ok next => exact ih next
    · rename_i hlayer
      rw [hp layer (Bool.not_eq_true _ ▸ hlayer)]
      exact ih into

/-- A single value is no concern of the files. -/
theorem putLayerFile_of_isSingle {layer : Layer} (h : layer.isSingle = true) (into : Setting) :
    putLayerFile into layer = .ok into := by
  cases layer with
  | set => rfl
  | _ => cases h

/-- **How files and single values alternate does not matter.** -/
theorem build_eq_of_filter {layers layers' : List Layer}
    (hfiles : layers'.filter (!·.isSingle) = layers.filter (!·.isSingle))
    (hsingles : layers'.filter (·.isSingle) = layers.filter (·.isSingle)) :
    build layers' = build layers := by
  have hoverrides : overrides layers' = overrides layers := by
    rw [← overrides_filter isSingle (fun _ _ ↦ rfl) layers', hsingles,
      overrides_filter isSingle fun _ _ ↦ rfl]
  have hsingle (layer : Layer) (h : (!layer.isSingle) = false) (into : Setting) :
      putLayerFile into layer = .ok into :=
    putLayerFile_of_isSingle (by simpa using h) into
  have hput : layers'.foldlM putLayerFile defaults = layers.foldlM putLayerFile defaults := by
    rw [← putLayerFiles_filter hsingle layers', hfiles, putLayerFiles_filter hsingle]
  rw [build, build, collect, collect, hoverrides, hput]

/-- **An optional file that is not there changes nothing.** -/
theorem build_filter_absent (layers : List Layer) :
    build (layers.filter (!·.isAbsent)) = build layers := by
  have habsent (layer : Layer) (h : (!layer.isAbsent) = false) (into : Setting) :
      putLayerFile into layer = .ok into := by
    rcases layer with _ | (_ | _) | _ <;> first | rfl | cases h
  rw [build, build, collect, collect, overrides_filter _ fun _ _ ↦ rfl,
    putLayerFiles_filter habsent]

/-! ### What the files and the single values come to -/

/-- The layers set nothing but keys, to values of any kind. -/
def SetKeys (layers : List Layer) : Prop := ∀ layer ∈ layers, layer.entries?.isSome

instance (layers : List Layer) : Decidable (SetKeys layers) :=
  inferInstanceAs (Decidable (∀ layer ∈ layers, layer.entries?.isSome))

theorem setKeys_cons {layer : Layer} {layers : List Layer} :
    SetKeys (layer :: layers) ↔ layer.entries?.isSome ∧ SetKeys layers :=
  List.forall_mem_cons

/-- The content of a file assigns its entries. -/
theorem exists_assigns_content {content : String} {entries : List Entry}
    (h : contentEntries? content = some entries) :
    ∃ f, Assigns entries f ∧ ∀ into, putFile content into = .ok (f into) := by
  rw [contentEntries?, Option.bind_eq_bind, Option.bind_eq_some_iff] at h
  obtain ⟨fields, hfields, h⟩ := h
  obtain ⟨all, hall, h⟩ := Option.bind_eq_some_iff.1 h
  cases h
  refine ⟨_, assigns_foldl (fun e entries he ↦ assigns_put he) hall, fun into ↦ ?_⟩
  rw [putFile, hfields]
  rfl

/-- A file that is there or need not be assigns its entries. -/
theorem exists_assigns_file {layer : Layer} (hkeys : layer.entries?.isSome)
    (hfile : layer.isSingle = false) (hthere : layer ≠ .file none) :
    ∃ f, Assigns (layer.entries?.getD []) f ∧ ∀ into, putLayerFile into layer = .ok (f into) := by
  obtain ⟨entries, hentries⟩ := Option.isSome_iff_exists.1 hkeys
  rw [hentries, Option.getD_some]
  rcases layer with (_ | content) | (_ | content) | _
  · exact absurd rfl hthere
  · exact exists_assigns_content hentries
  · cases hentries
    exact ⟨_, assigns_nil, fun _ ↦ rfl⟩
  · exact exists_assigns_content hentries
  · cases hfile

/-- Files that are all there, or need not be, assign their entries in their order. -/
theorem exists_files {layers : List Layer} (hkeys : SetKeys layers)
    (hthere : Layer.file none ∉ layers) :
    ∃ f, Assigns (allEntries (layers.filter (!·.isSingle))) f ∧
      ∀ into, layers.foldlM putLayerFile into = .ok (f into) := by
  induction layers with
  | nil => exact ⟨_, assigns_nil, fun _ ↦ rfl⟩
  | cons layer layers ih =>
    obtain ⟨hlayer, hlayers⟩ := setKeys_cons.1 hkeys
    obtain ⟨hne, hrest⟩ := List.ne_and_not_mem_of_not_mem_cons hthere
    obtain ⟨g, hg, hput⟩ := ih hlayers hrest
    cases hsingle : layer.isSingle with
    | true =>
      refine ⟨g, by rwa [List.filter_cons_of_neg (by simp [hsingle])], fun into ↦ ?_⟩
      rw [List.foldlM_cons, putLayerFile_of_isSingle hsingle]
      exact hput into
    | false =>
      obtain ⟨f, hf, hfile⟩ := exists_assigns_file hlayer hsingle (Ne.symm hne)
      rw [List.filter_cons_of_pos (by simp [hsingle]), allEntries, List.flatMap_cons]
      refine ⟨_, hf.comp hg, fun into ↦ ?_⟩
      rw [List.foldlM_cons, hfile]
      exact hput (f into)

/-- A file that has to be there and is not is the fault, if all others are documents. -/
theorem putLayerFiles_of_mem {layers : List Layer} (hkeys : SetKeys layers)
    (hmissing : Layer.file none ∈ layers) (into : Setting) :
    layers.foldlM putLayerFile into = .error .fileMissing := by
  induction layers generalizing into with
  | nil => cases hmissing
  | cons layer layers ih =>
    obtain ⟨hlayer, hlayers⟩ := setKeys_cons.1 hkeys
    rw [List.foldlM_cons]
    by_cases heq : layer = .file none
    · rw [heq]
      rfl
    have hrest := (List.mem_cons.1 hmissing).resolve_left (Ne.symm heq)
    cases hsingle : layer.isSingle with
    | true =>
      rw [putLayerFile_of_isSingle hsingle]
      exact ih hlayers hrest into
    | false =>
      obtain ⟨f, -, hfile⟩ := exists_assigns_file hlayer hsingle heq
      rw [hfile]
      exact ih hlayers hrest (f into)

/-- Single values assign their entries in their order. -/
theorem exists_singles {layers : List Layer} (hkeys : SetKeys layers) :
    ∃ singles, overrides layers = .ok singles ∧
      Assigns (allEntries (layers.filter (·.isSingle))) fun into ↦
        singles.foldl (fun into (path, value) ↦ put value path into) into := by
  induction layers with
  | nil => exact ⟨[], rfl, assigns_nil⟩
  | cons layer layers ih =>
    obtain ⟨hlayer, hlayers⟩ := setKeys_cons.1 hkeys
    obtain ⟨singles, hsingles, hassigns⟩ := ih hlayers
    obtain ⟨entries, hentries⟩ := Option.isSome_iff_exists.1 hlayer
    cases layer with
    | set text value =>
      obtain ⟨path, hpath, hvalue⟩ := Option.bind_eq_some_iff.1 hentries
      rw [overrides, hpath, List.filter_cons_of_pos rfl, allEntries, List.flatMap_cons, hentries]
      simp only [hsingles]
      exact ⟨_, rfl, (assigns_put hvalue).comp hassigns⟩
    | _ => exact ⟨singles, hsingles, hassigns⟩

/-- **Layers that set nothing but keys come to a table that holds one value for each key**, if no
file is missing that has to be there. -/
theorem exists_build_eq {layers : List Layer} (hkeys : SetKeys layers)
    (hthere : Layer.file none ∉ layers) :
    ∃ root, build layers = ofSetting root ∧ Holds root (value layers) := by
  obtain ⟨singles, hsingles, hassigns⟩ := exists_singles hkeys
  obtain ⟨f, hf, hput⟩ := exists_files hkeys hthere
  rw [build, collect, hsingles, hput, value_eq_after]
  exact ⟨_, rfl, hf.comp hassigns holds_defaults⟩

theorem build_of_mem {layers : List Layer} (hkeys : SetKeys layers)
    (hmissing : Layer.file none ∈ layers) : build layers = .error .fileMissing := by
  obtain ⟨singles, hsingles, -⟩ := exists_singles hkeys
  rw [build, collect, hsingles, putLayerFiles_of_mem hkeys hmissing]
  rfl

/-- The settings of layers are the values that they come to, each converted for its key. -/
theorem build_eq_ok_iff {layers : List Layer} (hkeys : SetKeys layers) {settings : Settings} :
    build layers = .ok settings ↔ Layer.file none ∉ layers ∧
      ∀ key : Key, key.convert (value layers key) = .ok (key.valueIn settings) := by
  by_cases hmissing : Layer.file none ∈ layers
  · rw [build_of_mem hkeys hmissing]
    constructor
    · intro h
      cases h
    · exact fun h ↦ absurd hmissing h.1
  · obtain ⟨root, hbuild, hroot⟩ := exists_build_eq hkeys hmissing
    rw [hbuild, hroot.ofSetting_eq_ok_iff]
    exact ⟨fun h ↦ ⟨hmissing, h⟩, And.right⟩

theorem exists_build_eq_error_iff {layers : List Layer} (hkeys : SetKeys layers) :
    (∃ e, build layers = .error e) ↔ Layer.file none ∈ layers ∨
      ∃ (key : Key) (e : SettingsError), key.convert (value layers key) = .error e := by
  by_cases hmissing : Layer.file none ∈ layers
  · exact ⟨fun _ ↦ .inl hmissing, fun _ ↦ ⟨_, build_of_mem hkeys hmissing⟩⟩
  · obtain ⟨root, hbuild, hroot⟩ := exists_build_eq hkeys hmissing
    rw [hbuild, hroot.ofSetting_eq_error_iff]
    exact ⟨.inr, fun h ↦ h.resolve_left hmissing⟩

/-- Files with single values between them. Three keys have a value that cannot be converted and that
does not count, one of them a table. -/
def alternating : List Layer :=
  [.set "trace.enabled" (.text "yes"),
    .file (some "parse.chunking = \x7b line = 1, page = 2 \x7d\n"),
    .set "output.label_width" (.text "wide"),
    .optionalFile none,
    .set "Output.Label_Width" (.int 7),
    .file (some "[parse]\nchunking = 'Page'\n[trace]\nenabled = []\n")]

/-- A file in which the value of a key is a table without fields. -/
def emptied : List Layer := [.file (some "[parse]\ngrammar = \x7b\x7d\n")]

/-- Two files in which the value of a key is a table that names a way of cutting. -/
def namedTwice : List Layer :=
  [.file (some "parse.chunking = \x7b line = 1 \x7d\n"),
    .file (some "parse.chunking = \x7b page = 1 \x7d\n")]

end Settings

end FragmentParser
