import FragmentParser.Settings.Layer

/-!
# A value that is set last

A value that is set singly behind all other layers lies above them. What layers come to is always a
table (`isTable_of_collect`), so setting one key of a section replaces that value and leaves all
other settings alone. For the trace this is `build_concat_trace`: settings that can be built can be
built with the trace set as well, and differ in nothing else.
-/

namespace FragmentParser.Settings

open Setting

/-- The value is a table. -/
def IsTable (s : Setting) : Prop := ∃ fields, s = .table fields

instance : DecidablePred IsTable
  | .table fields => .isTrue ⟨fields, rfl⟩
  | .nothing | .bool _ | .int _ | .double _ | .text _ | .list _ =>
    .isFalse fun ⟨_, h⟩ ↦ Setting.noConfusion h

theorem isTable_merge (key : String) (value into : Setting) : IsTable (merge key value into) := by
  unfold merge
  split <;> exact ⟨_, rfl⟩

/-- A value that is set under a key makes a table of what it is set in. -/
theorem isTable_put (value : Setting) (key : String) (path : Path) (into : Setting) :
    IsTable (put value (.key key :: path) into) := by
  cases path with
  | nil => exact isTable_merge key value into
  | cons step path => exact ⟨_, rfl⟩

/-- A path that a text spells begins with a key. -/
theorem exists_key_of_parsePath {s : String} {path : Path} (h : parsePath s = some path) :
    ∃ key rest, path = .key key :: rest := by
  rw [parsePath, Option.bind_eq_bind, Option.bind_eq_some_iff] at h
  obtain ⟨⟨first, chars⟩, hkey, h⟩ := h
  rw [pathKey] at hkey
  split at hkey
  · cases hkey
  · cases hkey
    obtain ⟨rest, -, h⟩ := Option.bind_eq_some_iff.1 h
    cases h
    exact ⟨_, rest, rfl⟩

theorem isTable_putTopLevel (key : String) (value into : Setting) :
    IsTable (putTopLevel key value into) := by
  rw [putTopLevel]
  cases h : parsePath key with
  | none => exact isTable_put value key [] into
  | some path =>
    obtain ⟨key, rest, rfl⟩ := exists_key_of_parsePath h
    exact isTable_put value key rest into

theorem IsTable.foldl {α : Type} {f : Setting → α → Setting} {as : List α}
    (hf : ∀ a ∈ as, ∀ into, IsTable (f into a)) {into : Setting} (h : IsTable into) :
    IsTable (as.foldl f into) := by
  induction as generalizing into with
  | nil => exact h
  | cons a as ih =>
    exact ih (fun b hb ↦ hf b (List.mem_cons_of_mem a hb)) (hf a List.mem_cons_self into)

theorem IsTable.putFile {content : String} {into result : Setting} (h : IsTable into)
    (hput : Settings.putFile content into = .ok result) : IsTable result := by
  rw [Settings.putFile] at hput
  split at hput
  · cases hput
    exact h.foldl fun _ _ _ ↦ isTable_putTopLevel ..
  · cases hput

theorem IsTable.putLayerFile {layer : Layer} {into result : Setting} (h : IsTable into)
    (hput : Settings.putLayerFile into layer = .ok result) : IsTable result := by
  rcases layer with (_ | content) | (_ | content) | ⟨path, value⟩
  · cases hput
  · exact h.putFile hput
  · cases hput
    exact h
  · exact h.putFile hput
  · cases hput
    exact h

theorem IsTable.foldlM {layers : List Layer} {into result : Setting} (h : IsTable into)
    (hput : layers.foldlM Settings.putLayerFile into = .ok result) : IsTable result := by
  induction layers generalizing into with
  | nil =>
    cases hput
    exact h
  | cons layer layers ih =>
    rw [List.foldlM_cons] at hput
    cases hlayer : Settings.putLayerFile into layer with
    | error e =>
      rw [hlayer] at hput
      cases hput
    | ok next =>
      rw [hlayer] at hput
      exact ih (h.putLayerFile hlayer) hput

theorem exists_key_of_overrides {layers : List Layer} {singles : List (Path × Setting)}
    (h : overrides layers = .ok singles) : ∀ e ∈ singles, ∃ key rest, e.1 = .key key :: rest := by
  fun_induction overrides layers generalizing singles with
  | case1 =>
    cases h
    intro e he
    cases he
  | case2 text value rest path hpath ih =>
    cases hrest : overrides rest with
    | error e =>
      rw [hrest] at h
      cases h
    | ok later =>
      rw [hrest] at h
      cases h
      intro e he
      rcases List.mem_cons.1 he with rfl | he
      · exact exists_key_of_parsePath hpath
      · exact ih hrest e he
  | case3 => cases h
  | case4 _ _ _ ih => exact ih h

/-- What layers come to is a table. -/
theorem isTable_of_collect {layers : List Layer} {root : Setting} (h : collect layers = .ok root) :
    IsTable root := by
  rw [collect] at h
  cases hsingles : overrides layers with
  | error e =>
    rw [hsingles] at h
    cases h
  | ok singles =>
    cases hfiles : layers.foldlM putLayerFile defaults with
    | error e =>
      rw [hsingles, hfiles] at h
      cases h
    | ok files =>
      rw [hsingles, hfiles] at h
      cases h
      refine IsTable.foldl (fun e he into ↦ ?_) (IsTable.foldlM ⟨_, rfl⟩ hfiles)
      obtain ⟨path, value⟩ := e
      obtain ⟨key, rest, rfl⟩ := exists_key_of_overrides hsingles _ he
      exact isTable_put value key rest into

/-! ### A single value behind all others -/

theorem overrides_concat {layers : List Layer} {singles : List (Path × Setting)} {text : String}
    {path : Path} {value : Setting} (h : overrides layers = .ok singles)
    (hpath : parsePath text = some path) :
    overrides (layers ++ [.set text value]) = .ok (singles ++ [(path, value)]) := by
  fun_induction overrides layers generalizing singles with
  | case1 =>
    cases h
    simp only [List.nil_append, overrides, hpath]
    rfl
  | case2 text' value' rest path' hpath' ih =>
    cases hrest : overrides rest with
    | error e =>
      rw [hrest] at h
      cases h
    | ok later =>
      rw [hrest] at h
      cases h
      rw [List.cons_append, overrides, hpath']
      simp only [ih hrest]
      rfl
  | case3 => cases h
  | case4 layer rest hlayer ih =>
    rw [List.cons_append, overrides.eq_3 _ _ hlayer]
    exact ih h

/-- The value is set in what the other layers come to. -/
theorem collect_concat {layers : List Layer} {root : Setting} {text : String} {path : Path}
    (h : collect layers = .ok root) (hpath : parsePath text = some path) (value : Setting) :
    collect (layers ++ [.set text value]) = .ok (put value path root) := by
  rw [collect] at h ⊢
  cases hsingles : overrides layers with
  | error e =>
    rw [hsingles] at h
    cases h
  | ok singles =>
    cases hfiles : layers.foldlM putLayerFile defaults with
    | error e =>
      rw [hsingles, hfiles] at h
      cases h
    | ok files =>
      rw [hsingles, hfiles] at h
      cases h
      have hall : (layers ++ [Layer.set text value]).foldlM putLayerFile defaults = .ok files := by
        rw [List.foldlM_append, hfiles]
        rfl
      rw [overrides_concat hsingles hpath, hall]
      show Except.ok _ = _
      rw [List.foldl_append]
      rfl

/-- Settings are read from the three sections, all of which have to be there. -/
theorem ofSetting_eq_ok_iff {root : Setting} {settings : Settings} :
    ofSetting root = .ok settings ↔
      (root.part? "parse" 0).mapM readParse = .ok (some (settings.grammar, settings.chunking)) ∧
      (root.part? "trace" 1).mapM readTrace = .ok (some settings.trace) ∧
      (root.part? "output" 2).mapM readOutput =
        .ok (some (settings.format, settings.labelWidth)) := by
  rw [ofSetting]
  generalize (root.part? "parse" 0).mapM readParse = parse
  generalize (root.part? "trace" 1).mapM readTrace = trace
  generalize (root.part? "output" 2).mapM readOutput = output
  obtain ⟨grammar, chunking, enabled, format, labelWidth⟩ := settings
  rcases parse with e | _ | ⟨g, c⟩ <;> rcases trace with e | _ | t <;>
    rcases output with e | _ | ⟨f, w⟩ <;>
    simp [required, bind, Except.bind, and_assoc]

/-- The path of the setting for the trace. -/
theorem parsePath_trace : parsePath "trace.enabled" = some [.key "trace", .key "enabled"] := by
  decide +kernel

/-- Setting the trace replaces one part of one section. -/
theorem exists_put_trace (b : Bool) (fields : List (String × Setting)) : ∃ others,
    put (.bool b) [.key "trace", .key "enabled"] (.table fields) =
      .table (putField "trace" (.table (putField "enabled" (.bool b) others)) fields) := by
  have hkey : foldKey "enabled" = "enabled" := by decide
  refine ⟨(((Setting.table fields).get? "trace").getD .nothing).fields, ?_⟩
  rw [put, put, merge, hkey]
  · rfl
  · intro incoming h
    cases h
  · intro h
    cases h

/-- **Settings that can be built can be built with the trace set behind all other layers**, and
differ in nothing else. -/
theorem build_concat_trace {layers : List Layer} {settings : Settings}
    (h : build layers = .ok settings) (b : Bool) :
    build (layers ++ [.set "trace.enabled" (.bool b)]) = .ok { settings with trace := b } := by
  rw [build] at h ⊢
  cases hroot : collect layers with
  | error e =>
    rw [hroot] at h
    cases h
  | ok root =>
    rw [hroot] at h
    rw [collect_concat hroot parsePath_trace]
    obtain ⟨fields, rfl⟩ := isTable_of_collect hroot
    obtain ⟨hparse, -, houtput⟩ := ofSetting_eq_ok_iff.1 h
    obtain ⟨others, hput⟩ := exists_put_trace b fields
    refine hput ▸ ofSetting_eq_ok_iff.2 ⟨?_, ?_, ?_⟩
    · rwa [part?, lookup_putField, if_neg (by decide)]
    · rw [part?, lookup_putField, if_pos rfl, Option.mapM_some, readTrace, part?, lookup_putField,
        if_pos rfl]
      rfl
    · rwa [part?, lookup_putField, if_neg (by decide)]

end FragmentParser.Settings
