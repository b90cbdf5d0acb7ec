import FragmentParser.Command.Directory
import FragmentParser.Command.Run
import FragmentParser.Proofs.Settings.Singles
import FragmentParser.Proofs.Termination

/-!
# What the command prints

A command line that asks for the parse of a document (`AsksFor`) goes through six steps, each of
which may fail: the settings are built from their layers, the format is looked up, the document is
read, it is text, its grammar is looked up and makes a tree of the chunks, and the format writes the
tree. What comes out if none fails is a relation between the files and a text (`Renders`), which
says nothing of the order of the steps. The command prints that text and has the code 0, or it
prints nothing and has the code 1 (`parse_of_renders`, `parse_of_not_renders`). The order shows in
the message alone: a format that is not known is reported with any document
(`run_of_unknown_format`).

The trace is not a part of `Renders`. So runs agree in their code and their output if their settings
differ in the trace only (`output_eq_of_trace`), and to ask for the trace on the command line is to
set it behind all other layers (`Settings.build_concat_trace`). This does **not** hold of settings
that cannot be built for the value of the trace alone: such a value is replaced, and then they can
be built. A command line that asks for help or for the version is answered without a look at its
path.
-/

namespace FragmentParser

/-! ### Trees of named grammars -/

/-- The grammar of the name makes the tree of the chunks. -/
def MakesTree (name : String) (chunks : List String) (tree : Node) : Prop :=
  (name = "outline" ∧ ∃ bound d, Outline.parser.run bound (.ofList chunks) = some (.ok tree, d)) ∨
    name = "memo" ∧ ∃ bound d, Memo.parser.run bound (.ofList chunks) = some (.ok tree, d)

/-- The bound of the catalog is no part of the report. -/
theorem Design.Describes.result_report_iff {C S Y E : Type} [DecidableEq S] [DecidableEq Y]
    [Constructor C] [Diagnostic S] [Diagnostic Y] {d : Design C String S E Node}
    {p : Parser C String S Y Node} (h : d.Describes p) {chunks : List String} {tree : Node} :
    (p.report (chunkBound chunks) chunks).result = some (.ok tree) ↔
      ∃ bound e, p.run bound (.ofList chunks) = some (.ok tree, e) := by
  obtain ⟨outcome, e, hrun⟩ := h.exists_run chunks
  have hbound := hrun _ (Nat.le_refl _)
  rw [Parser.report, hbound]
  refine ⟨fun hok ↦ ?_, fun ⟨bound, e', hrun'⟩ ↦ ?_⟩
  · cases hok
    exact ⟨_, e, hbound⟩
  · -- under the larger of the two bounds there is one outcome
    have hlarge := hrun _ (Nat.le_max_left (chunkBound chunks) bound)
    rw [Parser.run_of_le (Nat.le_max_right (chunkBound chunks) bound) hrun'] at hlarge
    cases hlarge
    rfl

theorem Catalog.get?_bundled (name : String) : Catalog.bundled.get? name =
    if name = "outline" then some .outline else if name = "memo" then some .memo else none := by
  simp only [Catalog.bundled, Catalog.register, NameTable.get?_insert, NameTable.get?_empty]
  rfl

/-- A document has the tree that its grammar makes of its chunks. -/
theorem result_parseDocument_iff {name : String} {chunking : Chunking} {source : String}
    {tree : Node} : (parseDocument .bundled ⟨name, chunking⟩ source).result = some (.ok tree) ↔
      MakesTree name (chunking.chunk source) tree := by
  have hmap : ∀ {result : Option (Except ParseError Node)},
      result.map (·.mapError DocumentError.parse) = some (.ok tree) ↔ result = some (.ok tree) := by
    rintro (_ | e | t) <;> constructor <;> intro h <;> cases h <;> rfl
  rw [parseDocument, Catalog.get?_bundled, MakesTree]
  by_cases houtline : name = "outline"
  · subst houtline
    rw [if_pos rfl]
    exact (hmap.trans Outline.describes.result_report_iff).trans (by simp)
  · by_cases hmemo : name = "memo"
    · subst hmemo
      rw [if_neg houtline, if_pos rfl]
      exact (hmap.trans Memo.describes.result_report_iff).trans (by simp)
    · simp [houtline, hmemo]

namespace Command

/-! ### Formats -/

/-- The formats of a run: drawings have labels of the width that is set. -/
def formatsWith (labelWidth : Nat) : List Format := [.tag, .treeviz labelWidth, .json, .yaml]

theorem get?_formats_iff {settings : Settings} {name : String} {f : Format} :
    (formats settings).get? name = some f ↔ f ∈ formatsWith settings.labelWidth ∧ f.name = name := by
  have hget : (formats settings).get? name =
      if name = "treeviz" then some (.treeviz settings.labelWidth)
      else if name = "yaml" then some .yaml
      else if name = "json" then some .json
      else if name = "treeviz" then some (.treeviz Format.Treeviz.defaultWidth)
      else if name = "tag" then some .tag
      else none := by
    simp only [formats, FormatCatalog.bundled, FormatCatalog.register, List.foldl_cons,
      List.foldl_nil, NameTable.get?_insert, NameTable.get?_empty]
    rfl
  have hnames : Format.tag.name = "tag" ∧ (Format.treeviz settings.labelWidth).name = "treeviz" ∧
      Format.json.name = "json" ∧ Format.yaml.name = "yaml" := ⟨rfl, rfl, rfl, rfl⟩
  rw [hget, formatsWith]
  grind

theorem has_formats_iff {settings : Settings} {name : String} : (formats settings).has name = true ↔
    ∃ f ∈ formatsWith settings.labelWidth, f.name = name := by
  rw [NameTable.has, Option.isSome_iff_exists]
  exact exists_congr fun f ↦ get?_formats_iff

theorem write_formats_iff {settings : Settings} {tree : Node} {name text : String} :
    (formats settings).write tree name = .ok text ↔
      ∃ f ∈ formatsWith settings.labelWidth, f.name = name ∧ f.write tree = .ok text := by
  rw [FormatCatalog.write]
  split
  · next f hf =>
    refine ⟨fun h ↦ ⟨f, (get?_formats_iff.1 hf).1, (get?_formats_iff.1 hf).2, h⟩, ?_⟩
    rintro ⟨f', hmem, hname, h⟩
    rw [get?_formats_iff.2 ⟨hmem, hname⟩] at hf
    cases hf
    exact h
  · next hnone =>
    refine ⟨fun h ↦ (by cases h), ?_⟩
    rintro ⟨f, hmem, hname, -⟩
    rw [get?_formats_iff.2 ⟨hmem, hname⟩] at hnone
    cases hnone

/-! ### Runs with given settings -/

/-- With these settings the document under the path is there, it is text, the grammar of the
settings makes a tree of its chunks, and the format of the settings writes that tree as `out`, with
a line end behind it unless it ends in one. -/
structure Renders (read : Reading) (settings : Settings) (path out : String) : Prop where
  /-- The steps, each from what the one before has given. -/
  exists_steps : ∃ bytes source tree, ∃ f ∈ formatsWith settings.labelWidth, ∃ text,
    read path = .ok bytes ∧ String.fromUTF8? bytes = some source ∧
      MakesTree settings.grammar (settings.chunking.chunk source) tree ∧
      f.name = settings.format ∧ f.write tree = .ok text ∧ out = endLine text

variable {read : Reading} {settings : Settings} {path out : String}

theorem readDocument_iff {source : String} : readDocument read path = .ok source ↔
    ∃ bytes, read path = .ok bytes ∧ String.fromUTF8? bytes = some source := by
  rw [readDocument]
  rcases read path with e | bytes
  · simp [bind, Except.bind]
  · show decodeSource bytes = .ok source ↔ _
    rw [decodeSource]
    cases htext : String.fromUTF8? bytes <;> simp [htext]

theorem result_report_iff {tree : Node} : (report read settings path).result = some (.ok tree) ↔
    ∃ bytes source, read path = .ok bytes ∧ String.fromUTF8? bytes = some source ∧
      MakesTree settings.grammar (settings.chunking.chunk source) tree := by
  rw [report]
  split
  · next source hsource =>
    obtain ⟨bytes, hread, htext⟩ := readDocument_iff.1 hsource
    refine result_parseDocument_iff.trans ⟨fun h ↦ ⟨bytes, source, hread, htext, h⟩, ?_⟩
    rintro ⟨bytes', source', hread', htext', h⟩
    cases hread.symm.trans hread'
    cases htext.symm.trans htext'
    exact h
  · next e he =>
    refine ⟨fun h ↦ (by cases h), ?_⟩
    rintro ⟨bytes, source, hread, htext, -⟩
    rw [readDocument_iff.2 ⟨bytes, hread, htext⟩] at he
    cases he

/-- A parse prints what the settings make of the document, if they make anything of it. -/
theorem parse_of_renders (h : Renders read settings path out) :
    (parse read settings path).code = 0 ∧ (parse read settings path).stdout = out := by
  obtain ⟨bytes, source, tree, f, hf, text, hread, htext, htree, hname, hwrite, rfl⟩ := h.exists_steps
  have hreport := result_report_iff.2 ⟨bytes, source, hread, htext, htree⟩
  have hformat := write_formats_iff.2 ⟨f, hf, hname, hwrite⟩
  simp only [parse, if_pos (has_formats_iff.2 ⟨f, hf, hname⟩), hreport, hformat, and_self]

/-- Otherwise it prints nothing, and has failed. -/
theorem parse_of_not_renders (h : ¬∃ out, Renders read settings path out) :
    (parse read settings path).code = 1 ∧ (parse read settings path).stdout = "" := by
  rw [parse]
  dsimp only
  split
  · split
    · exact ⟨rfl, rfl⟩
    · exact ⟨rfl, rfl⟩
    · next tree hreport =>
      split
      · next text hwrite =>
        obtain ⟨bytes, source, hread, htext, htree⟩ := result_report_iff.1 hreport
        obtain ⟨f, hf, hname, hwrite⟩ := write_formats_iff.1 hwrite
        exact absurd ⟨_, ⟨bytes, source, tree, f, hf, text, hread, htext, htree, hname, hwrite, rfl⟩⟩ h
      · exact ⟨rfl, rfl⟩
  · exact ⟨rfl, rfl⟩

/-! ### Command lines -/

theorem exists_of_bind_eq_ok {ε α β : Type} {x : Except ε α} {f : α → Except ε β} {b : β}
    (h : (do f (← x)) = .ok b) : ∃ a, x = .ok a ∧ f a = .ok b := by
  cases x with
  | error e => cases h
  | ok a => exact ⟨a, rfl, h⟩

/-- Only what is complete is accepted. -/
theorem complete_eq_of_map {given g : Given} (h : given.complete.map Request.run = .ok (.run g)) :
    g.complete = .ok g := by
  cases hc : given.complete with
  | error e =>
    rw [hc] at h
    cases h
  | ok g' =>
    rw [hc] at h
    cases h
    rw [Given.complete] at hc ⊢
    split at hc
    · next hpath =>
      cases hc
      rw [if_pos hpath]
    · cases hc

theorem complete_of_readArguments {given g : Given} {pending : Option Parameter} {ended : Bool}
    {args : List String} (h : readArguments given pending ended args = .ok (.run g)) :
    g.complete = .ok g := by
  fun_induction readArguments given pending ended args with
  | case2 => exact complete_eq_of_map h
  | case6 | case8 | case15 =>
    rename_i ih
    exact ih h
  | case3 | case5 | case9 | case11 | case16 | case17 =>
    rename_i ih
    obtain ⟨given', -, h⟩ := exists_of_bind_eq_ok h
    exact ih given' h
  | case1 | case4 | case7 | case10 | case12 | case13 | case14 | case18 | case19 => cases h

/-- A command line that is accepted and asks for no list has a path. -/
theorem exists_path_of_ofArguments {args : List String} {given : Given}
    (h : Request.ofArguments args = .ok (.run given)) (hgrammars : given.has .listGrammars = false)
    (hformats : given.has .listFormats = false) : ∃ path, given.path = some path := by
  rw [Request.ofArguments] at h
  split at h
  · cases h
  · have hcomplete := complete_of_readArguments h
    rw [Given.complete, hgrammars, hformats] at hcomplete
    split at hcomplete
    · next hpath => exact Option.isSome_iff_exists.1 (by simpa using hpath)
    · cases hcomplete

/-- The command line asks for the parse of the document under the path, and for no list. -/
structure AsksFor (args : List String) (given : Given) (path : String) : Prop where
  /-- It is not refused, and it does not ask for help or for the version. -/
  accepted : Request.ofArguments args = .ok (.run given)
  /-- The path is given. -/
  path_eq : given.path = some path
  /-- The grammars are not to be listed. -/
  no_grammars : given.has .listGrammars = false
  /-- The formats are not to be listed. -/
  no_formats : given.has .listFormats = false

/-- The settings of the run can be built, and the document is printed with them as `out`. -/
def Prints (read : Reading) (given : Given) (path out : String) : Prop :=
  ∃ settings, Settings.build (layers read given) = .ok settings ∧ Renders read settings path out

section Asks

variable {read' : Reading} {args args' : List String} {given given' : Given}
  (h : AsksFor args given path)

include h

theorem run_of_build (hbuild : Settings.build (layers read given) = .ok settings) :
    run read args = parse read settings path := by
  simp only [run, h.accepted, runGiven, h.no_grammars, h.no_formats, hbuild, h.path_eq]
  rfl

theorem run_of_prints (hp : Prints read given path out) :
    (run read args).code = 0 ∧ (run read args).stdout = out := by
  obtain ⟨settings, hbuild, hrenders⟩ := hp
  rw [run_of_build h hbuild]
  exact parse_of_renders hrenders

theorem run_of_not_prints (hp : ¬∃ out, Prints read given path out) :
    (run read args).code = 1 ∧ (run read args).stdout = "" := by
  cases hbuild : Settings.build (layers read given) with
  | error e =>
    simp only [run, h.accepted, runGiven, h.no_grammars, h.no_formats, hbuild]
    exact ⟨rfl, rfl⟩
  | ok settings =>
    rw [run_of_build h hbuild]
    exact parse_of_not_renders fun ⟨out, hrenders⟩ ↦ hp ⟨out, settings, hbuild, hrenders⟩

/-- Runs that print the same print the same if they print nothing, too. -/
theorem output_eq_of_prints_iff (h' : AsksFor args' given' path)
    (hp : ∀ out, Prints read' given' path out ↔ Prints read given path out) :
    (run read' args').code = (run read args).code ∧
      (run read' args').stdout = (run read args).stdout := by
  by_cases hprints : ∃ out, Prints read given path out
  · obtain ⟨out, hout⟩ := hprints
    obtain ⟨hcode, hstdout⟩ := run_of_prints h hout
    obtain ⟨hcode', hstdout'⟩ := run_of_prints h' ((hp out).2 hout)
    exact ⟨hcode'.trans hcode.symm, hstdout'.trans hstdout.symm⟩
  · obtain ⟨hcode, hstdout⟩ := run_of_not_prints h hprints
    obtain ⟨hcode', hstdout'⟩ :=
      run_of_not_prints h' fun ⟨out, hout⟩ ↦ hprints ⟨out, (hp out).1 hout⟩
    exact ⟨hcode'.trans hcode.symm, hstdout'.trans hstdout.symm⟩

end Asks

/-- A format that is not known is reported whatever the document is: the run is the same with files
that agree on the settings only. -/
theorem run_of_unknown_format {read' : Reading} {args : List String} {given : Given}
    (h : AsksFor args given path) (hbuild : Settings.build (layers read given) = .ok settings)
    (hformat : settings.format ∉ (formatsWith settings.labelWidth).map Format.name)
    (hfile : ∀ file, given.value? .config = some file →
      settingsFile read' file = settingsFile read file) :
    run read' args = ⟨1, "", "Unknown format '" ++ settings.format ++ "'\nAvailable formats: " ++
      ", ".intercalate (formats settings).names ++ "\n"⟩ := by
  have hlayers : layers read' given = layers read given := by
    rw [layers, layers]
    cases hconfig : given.value? .config with
    | none => rfl
    | some file => simp only [hfile file hconfig, Option.map_some]
  have hhas : ¬(formats settings).has settings.format = true := by
    rw [has_formats_iff]
    rintro ⟨f, hf, hname⟩
    exact hformat (List.mem_map.2 ⟨f, hf, hname⟩)
  rw [run_of_build h (hlayers ▸ hbuild), parse]
  exact if_neg hhas

/-! ### Tracing -/

/-- What is rendered does not depend on the trace, and of the files only on the document. -/
theorem renders_trace_iff {read' : Reading} (hread : read' path = read path) (b : Bool) :
    Renders read' { settings with trace := b } path out ↔ Renders read settings path out :=
  ⟨fun ⟨h⟩ ↦ ⟨hread ▸ h⟩, fun ⟨h⟩ ↦ ⟨hread ▸ h⟩⟩

/-- Runs whose settings differ in the trace at most have the same code and output. -/
theorem output_eq_of_trace {read' : Reading} {args args' : List String} {given given' : Given}
    {b : Bool} (h : AsksFor args given path) (h' : AsksFor args' given' path)
    (hread : read' path = read path) (hbuild : Settings.build (layers read given) = .ok settings)
    (hbuild' : Settings.build (layers read' given') = .ok { settings with trace := b }) :
    (run read' args').code = (run read args).code ∧
      (run read' args').stdout = (run read args).stdout := by
  refine output_eq_of_prints_iff h h' fun out ↦ ⟨?_, ?_⟩
  · rintro ⟨built, hbuilt, hrenders⟩
    cases hbuild'.symm.trans hbuilt
    exact ⟨settings, hbuild, (renders_trace_iff hread b).1 hrenders⟩
  · rintro ⟨built, hbuilt, hrenders⟩
    cases hbuild.symm.trans hbuilt
    exact ⟨_, hbuild', (renders_trace_iff hread b).2 hrenders⟩

/-- The same was given, but once the trace was not asked for, and once it was. -/
structure Given.Traced (given traced : Given) : Prop where
  /-- The options have the same values. -/
  value?_eq : ∀ p, traced.value? p = given.value? p
  /-- The one does without the trace. -/
  off : given.has .trace = false
  /-- The other asks for it. -/
  on : traced.has .trace = true

/-- Asking for the trace sets it behind all other settings. -/
theorem Given.Traced.layers_eq {given traced : Given} (h : given.Traced traced) (read : Reading) :
    layers read traced = layers read given ++ [.set "trace.enabled" (.bool true)] := by
  simp only [layers, singleSettings, h.value?_eq, h.off, h.on, if_true, List.append_assoc]
  rfl

/-! ### All runs -/

/-- **What the command prints.** A command line that is refused has a code of its own, and prints
nothing. One that asks for the parse of a document has the code 0 exactly if all steps succeed, and
prints the text that they come to; else it has the code 1 and prints nothing. A format that is not
known is reported whatever is found under the path. The trace makes no difference for the code and
the output, neither as a setting nor as an option that is given in addition. -/
theorem prints_documents (read : Reading) (args : List String) :
    (∀ e, Request.ofArguments args = .error e →
      (run read args).code = 2 ∧ (run read args).stdout = "") ∧
    (∀ given, Request.ofArguments args = .ok (.run given) → given.has .listGrammars = false →
      given.has .listFormats = false → ∃ path, AsksFor args given path) ∧
    ∀ given path, AsksFor args given path →
      ((run read args).code = 0 ↔ ∃ out, Prints read given path out) ∧
      (∀ out, Prints read given path out → (run read args).stdout = out) ∧
      ((run read args).code ≠ 0 → (run read args).code = 1 ∧ (run read args).stdout = "") ∧
      (∀ read' settings, Settings.build (layers read given) = .ok settings →
        settings.format ∉ ["tag", "treeviz", "json", "yaml"] →
        (∀ file, given.value? .config = some file → settingsFile read' file = settingsFile read file) →
        run read' args = ⟨1, "", "Unknown format '" ++ settings.format ++ "'\nAvailable formats: " ++
          ", ".intercalate (formats settings).names ++ "\n"⟩) ∧
      (∀ read' args' given' settings b, AsksFor args' given' path → read' path = read path →
        Settings.build (layers read given) = .ok settings →
        Settings.build (layers read' given') = .ok { settings with trace := b } →
        (run read' args').code = (run read args).code ∧
          (run read' args').stdout = (run read args).stdout) ∧
      ∀ args' given' settings, AsksFor args' given' path → given.Traced given' →
        Settings.build (layers read given) = .ok settings →
        (run read args').code = (run read args).code ∧
          (run read args').stdout = (run read args).stdout := by
  refine ⟨fun e he ↦ ?_, fun given hgiven hgrammars hformats ↦ ?_, fun given path h ↦ ?_⟩
  · rw [run, he]
    exact ⟨rfl, rfl⟩
  · obtain ⟨path, hpath⟩ := exists_path_of_ofArguments hgiven hgrammars hformats
    exact ⟨path, hgiven, hpath, hgrammars, hformats⟩
  refine ⟨⟨fun hcode ↦ Classical.byContradiction fun hnone ↦ ?_,
      fun ⟨out, hout⟩ ↦ (run_of_prints h hout).1⟩,
    fun out hout ↦ (run_of_prints h hout).2,
    fun hcode ↦ run_of_not_prints h fun ⟨out, hout⟩ ↦ hcode (run_of_prints h hout).1,
    fun read' settings hbuild hformat hfile ↦ run_of_unknown_format h hbuild hformat hfile,
    fun read' args' given' settings b h' hread hbuild hbuild' ↦
      output_eq_of_trace h h' hread hbuild hbuild',
    fun args' given' settings h' htraced hbuild ↦ ?_⟩
  · rw [(run_of_not_prints h hnone).1] at hcode
    cases hcode
  · have hbuild' : Settings.build (layers read given') = .ok { settings with trace := true } := by
      rw [htraced.layers_eq]
      exact Settings.build_concat_trace hbuild true
    exact output_eq_of_trace h h' rfl hbuild hbuild'

/-- A directory with a memo, and with settings whose trace is no truth value. -/
def memoDirectory : Directory :=
  ⟨[("m.txt", "Title\n=====\n\nText.\n".toUTF8), ("c.toml", "trace.enabled = \"maybe\"\n".toUTF8)]⟩

/-- A memo as tags, without the trace and with it. -/
theorem prints_documents_memo : ∃ given traced settings text,
    AsksFor ["m.txt", "-g", "memo", "-f", "tag"] given "m.txt" ∧
    AsksFor ["m.txt", "-g", "memo", "-f", "tag", "--trace"] traced "m.txt" ∧
    given.Traced traced ∧ Settings.build (layers memoDirectory.read given) = .ok settings ∧
    Renders memoDirectory.read settings "m.txt" text ∧
    text = "<body>\n  <section title=\"Title\">\n    <paragraph>Text.</paragraph>\n  </section>\n</body>\n" ∧
    (run memoDirectory.read ["m.txt", "-g", "memo", "-f", "tag", "--trace"]).code = 0 ∧
    (run memoDirectory.read ["m.txt", "-g", "memo", "-f", "tag", "--trace"]).stdout = text := by
  have h : AsksFor ["m.txt", "-g", "memo", "-f", "tag"]
      ⟨[(.format, "tag"), (.grammar, "memo")], [], some "m.txt"⟩ "m.txt" := ⟨by rfl, rfl, rfl, rfl⟩
  have h' : AsksFor ["m.txt", "-g", "memo", "-f", "tag", "--trace"]
      ⟨[(.format, "tag"), (.grammar, "memo")], [.trace], some "m.txt"⟩ "m.txt" :=
    ⟨by rfl, rfl, rfl, rfl⟩
  have hrun : run memoDirectory.read ["m.txt", "-g", "memo", "-f", "tag"] = ⟨0,
      "<body>\n  <section title=\"Title\">\n    <paragraph>Text.</paragraph>\n  </section>\n</body>\n",
      ""⟩ := by decide +kernel
  obtain ⟨hcode, hstdout, -, -, -, htrace⟩ :=
    (prints_documents memoDirectory.read ["m.txt", "-g", "memo", "-f", "tag"]).2.2 _ _ h
  obtain ⟨text, settings, hbuild, hrenders⟩ := hcode.1 (congrArg Outcome.code hrun)
  have htext := hstdout text ⟨settings, hbuild, hrenders⟩
  have htraced : Given.Traced ⟨[(.format, "tag"), (.grammar, "memo")], [], some "m.txt"⟩
      ⟨[(.format, "tag"), (.grammar, "memo")], [.trace], some "m.txt"⟩ := ⟨fun _ ↦ rfl, rfl, rfl⟩
  obtain ⟨hcode', hstdout'⟩ := htrace _ _ settings h' htraced hbuild
  refine ⟨_, _, settings, text, h, h', htraced, hbuild, hrenders, ?_, ?_, hstdout'.trans htext⟩
  · rw [← htext, hrun]
  · rw [hcode', hrun]

/-- The version is told with the code 0 when there is no document, and a trace that is no truth
value is a fault of the settings only as long as the trace is not asked for. -/
theorem version_without_document : memoDirectory.read "doc.txt" = .error .notFound ∧
    run memoDirectory.read ["doc.txt", "--version"] = ⟨0, "fsmparse 0.1.0\n", ""⟩ ∧
    (run memoDirectory.read ["m.txt", "-c", "c.toml", "-g", "memo"]).code = 1 ∧
    (run memoDirectory.read ["m.txt", "-c", "c.toml", "-g", "memo", "--trace"]).code = 0 :=
  ⟨by rfl, by decide +kernel⟩

end Command

end FragmentParser
