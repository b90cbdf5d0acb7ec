import FragmentParser.Grammar.Draft
import Mathlib.Data.List.Find

/-!
# The check of a draft

A draft is accepted if it has an initial state, no symbol twice, and rules that are about registered
symbols and have different keys (`Grammar.Draft.Accepted`). Of a draft that is not accepted one
fault is reported. The two loops that look for it stop at the **first offence** of a list: the first
entry that offends against the entries before it (`FirstOffence`). So what they find is described by
one notion, and that the loops keep what they have seen in the opposite order makes no difference.

The grammar of an accepted draft answers from the draft (`Grammar.Draft.Tabulates`). It rests on the
keys being different that a look-up finds what was registered, wherever it stands in the list.
-/

namespace FragmentParser

/-! ### First offences -/

/-- The entry is the first of the list that offends against the entries before it. -/
def FirstOffence {α : Type} (offends : List α → α → Prop) (l : List α) (x : α) : Prop :=
  ∃ before after, l = before ++ x :: after ∧ offends before x ∧
    ∀ start z rest, before = start ++ z :: rest → ¬offends start z

/-- Either the first entry offends, or the list behind it is looked at with that entry in mind. -/
theorem firstOffence_cons {α : Type} {offends : List α → α → Prop} {z : α} {l : List α} {x : α} :
    FirstOffence offends (z :: l) x ↔ (offends [] z ∧ x = z) ∨
      ¬offends [] z ∧ FirstOffence (fun before ↦ offends (z :: before)) l x := by
  constructor
  · rintro ⟨_ | ⟨w, before⟩, after, hl, hx, hbefore⟩
    · obtain ⟨rfl, -⟩ := List.cons.inj hl
      exact .inl ⟨hx, rfl⟩
    · obtain ⟨rfl, rfl⟩ := List.cons.inj hl
      refine .inr ⟨hbefore [] z before rfl, before, after, rfl, hx, fun start w rest h ↦ ?_⟩
      exact hbefore (z :: start) w rest (congrArg (List.cons z) h)
  · rintro (⟨hz, rfl⟩ | ⟨hz, before, after, rfl, hx, hbefore⟩)
    · refine ⟨[], l, rfl, hz, fun start w rest h ↦ ?_⟩
      exact absurd h.symm (by simp)
    · refine ⟨z :: before, after, rfl, hx, ?_⟩
      rintro (_ | ⟨v, start⟩) w rest h
      · obtain ⟨rfl, -⟩ := List.cons.inj h
        exact hz
      · obtain ⟨rfl, htail⟩ := List.cons.inj h
        exact hbefore start w rest htail

theorem not_firstOffence_nil {α : Type} {offends : List α → α → Prop} {x : α} :
    ¬FirstOffence offends [] x := by
  rintro ⟨before, after, h, -⟩
  exact absurd h.symm (by simp)

/-- An entry of an association list with different keys is what its key leads to. -/
theorem lookup_eq_some_iff_mem {α β : Type} [BEq α] [LawfulBEq α] {l : List (α × β)}
    (h : (l.map Prod.fst).Nodup) {a : α} {b : β} : l.lookup a = some b ↔ (a, b) ∈ l := by
  induction l with
  | nil => simp
  | cons e l ih =>
    obtain ⟨a', b'⟩ := e
    obtain ⟨hnew, hl⟩ := List.nodup_cons.1 h
    rw [List.lookup_cons, List.mem_cons, Prod.mk.injEq]
    by_cases ha : a = a'
    · subst ha
      have hmem : (a, b) ∉ l := fun hm ↦ hnew (List.mem_map.2 ⟨_, hm, rfl⟩)
      simp [hmem, eq_comm]
    · have hne : (a == a') = false := beq_eq_false_iff_ne.2 ha
      rw [hne]
      simp [ha, ih hl]

namespace Grammar.Draft

variable {C F S Y : Type}

/-- The registered symbols, in the order of registration. -/
def symbols (d : Draft C F S Y) : List Y := d.recognizers.map Prod.fst

/-- The states and symbols of the rules, in the order of registration. -/
def keys (d : Draft C F S Y) : List (S × Y) := d.rules.map Prod.fst

/-- The draft has no fault. -/
structure Accepted (d : Draft C F S Y) : Prop where
  /-- An initial state and constructor are set. -/
  initial : d.initial.isSome = true
  /-- No symbol is registered twice. -/
  nodup_symbols : d.symbols.Nodup
  /-- The rules are about registered symbols. -/
  registered : ∀ k ∈ d.keys, k.2 ∈ d.symbols
  /-- No state and symbol have two rules. -/
  nodup_keys : d.keys.Nodup

/-! ### The loops -/

section Loops

variable {α : Type} [DecidableEq α]

theorem firstRepeated_eq_some_iff {seen l : List α} {x : α} : firstRepeated seen l = some x ↔
    FirstOffence (fun before z ↦ z ∈ seen ∨ z ∈ before) l x := by
  induction l generalizing seen with
  | nil => simp [firstRepeated, not_firstOffence_nil]
  | cons y l ih =>
    rw [firstRepeated, firstOffence_cons]
    by_cases hy : y ∈ seen
    · simp [hy, eq_comm]
    · simp [hy, ih, or_assoc, or_left_comm]

theorem firstRepeated_eq_none_iff {seen l : List α} :
    firstRepeated seen l = none ↔ l.Nodup ∧ ∀ x ∈ l, x ∉ seen := by
  induction l generalizing seen with
  | nil => simp [firstRepeated]
  | cons y l ih =>
    rw [firstRepeated]
    by_cases hy : y ∈ seen
    · simp [hy]
    · simp only [hy, if_false, ih, List.nodup_cons, List.mem_cons, forall_eq_or_imp, not_or]
      grind

variable [DecidableEq S] [DecidableEq Y] [Diagnostic S] [Diagnostic Y]
  {registered : List Y} {seen l : List (S × Y)}

/-- What is reported of a rule that offends. That its symbol is not registered is reported even if
the rule is a second one as well. -/
def ruleFault (registered : List Y) (k : S × Y) : GrammarError :=
  if k.2 ∉ registered then .unknownSymbol (text k.1) (text k.2)
  else .duplicateTransition (text k.1) (text k.2)

theorem firstFault_eq_some_iff {e : GrammarError} : firstFault registered seen l = some e ↔
    ∃ k, FirstOffence (fun before k ↦ k.2 ∉ registered ∨ k ∈ seen ∨ k ∈ before) l k ∧
      e = ruleFault registered k := by
  induction l generalizing seen with
  | nil => simp [firstFault, not_firstOffence_nil]
  | cons k l ih =>
    obtain ⟨s, y⟩ := k
    simp only [firstFault, firstOffence_cons]
    by_cases hy : y ∉ registered
    · simp [hy, ruleFault, eq_comm]
    · by_cases hseen : (s, y) ∈ seen
      · simp [Decidable.not_not.1 hy, hseen, ruleFault, eq_comm (a := e)]
      · simp [hy, hseen, ih, or_assoc, or_left_comm]

theorem firstFault_eq_none_iff : firstFault registered seen l = none ↔
    (∀ k ∈ l, k.2 ∈ registered) ∧ l.Nodup ∧ ∀ k ∈ l, k ∉ seen := by
  induction l generalizing seen with
  | nil => simp [firstFault]
  | cons k l ih =>
    obtain ⟨s, y⟩ := k
    rw [firstFault]
    by_cases hy : y ∉ registered
    · simp [hy]
    · by_cases hseen : (s, y) ∈ seen
      · simp [hy, hseen]
      · simp only [hy, hseen, if_false, ih, List.nodup_cons, List.mem_cons, forall_eq_or_imp, not_or]
        grind

end Loops

/-! ### Calls -/

/-- One addition to a draft. -/
inductive Call (C F S Y : Type) where
  /-- A symbol is registered. -/
  | recognizer (symbol : Y) (accepts : F → Bool)
  /-- A transition is added. -/
  | transition (state : S) (symbol : Y) (transition : Transition C S)
  /-- The same transition is added for several states. -/
  | transitions (states : List S) (symbol : Y) (transition : Transition C S)
  /-- A transition is added that is computed. -/
  | computed (state : S) (symbol : Y) (compute : Y → StateStack S → Transition C S)
  /-- It is set where a parse begins. -/
  | startingAt (state : S) (constructor : C)

/-- What a call makes of a draft. -/
def Call.add (d : Draft C F S Y) : Call C F S Y → Draft C F S Y
  | .recognizer y accepts => d.recognizer y accepts
  | .transition s y t => d.transition s y t
  | .transitions states y t => d.transitions states y t
  | .computed s y compute => d.computed s y compute
  | .startingAt s c => d.startingAt s c

/-- The draft after the calls. -/
def ofCalls (calls : List (Call C F S Y)) : Draft C F S Y := calls.foldl Call.add empty

/-- The recognizer that a call registers, if it does. -/
def Call.recognizers : Call C F S Y → List (Y × (F → Bool))
  | .recognizer y accepts => [(y, accepts)]
  | _ => []

/-- The rules that a call adds. -/
def Call.rules : Call C F S Y → List ((S × Y) × Rule C S Y)
  | .transition s y t => [((s, y), .fixed t)]
  | .transitions states y t => states.map fun s ↦ ((s, y), .fixed t)
  | .computed s y compute => [((s, y), .computed compute)]
  | _ => []

/-- Where a parse begins by a call, if it sets that. -/
def Call.initials : Call C F S Y → List (S × C)
  | .startingAt s c => [(s, c)]
  | _ => []

theorem transitions_eq (d : Draft C F S Y) (states : List S) (y : Y) (t : Transition C S) :
    d.transitions states y t =
      { d with rules := d.rules ++ states.map fun s ↦ ((s, y), .fixed t) } := by
  rw [transitions]
  induction states generalizing d with
  | nil => rw [List.foldl_nil, List.map_nil, List.append_nil]
  | cons s states ih =>
    rw [List.foldl_cons, ih, List.map_cons, transition, rule, List.append_assoc]
    rfl

/-- Of a call each part of the draft takes its own. -/
theorem Call.add_eq (d : Draft C F S Y) (call : Call C F S Y) :
    call.add d = ⟨d.recognizers ++ call.recognizers, d.rules ++ call.rules,
      call.initials.getLast?.or d.initial⟩ := by
  cases call with
  | transitions states y t =>
    rw [Call.add, transitions_eq]
    simp [Call.recognizers, Call.rules, Call.initials]
  | recognizer | transition | computed | startingAt =>
    simp [Call.add, Call.recognizers, Call.rules, Call.initials, Draft.recognizer, Draft.transition,
      Draft.computed, Draft.startingAt, Draft.rule]

/-- The recognizers and rules are those of all calls in their order, and the last call that sets
where a parse begins counts. -/
theorem ofCalls_eq (calls : List (Call C F S Y)) : ofCalls calls =
    ⟨calls.flatMap Call.recognizers, calls.flatMap Call.rules,
      (calls.flatMap Call.initials).getLast?⟩ := by
  have hfold : ∀ d : Draft C F S Y, calls.foldl Call.add d =
      ⟨d.recognizers ++ calls.flatMap Call.recognizers, d.rules ++ calls.flatMap Call.rules,
        (calls.flatMap Call.initials).getLast?.or d.initial⟩ := by
    induction calls with
    | nil => intro d; simp
    | cons call calls ih =>
      intro d
      rw [List.foldl_cons, ih, call.add_eq]
      simp only [List.flatMap_cons, List.append_assoc, List.getLast?_append, Option.or_assoc]
  rw [ofCalls, hfold, empty]
  simp

/-! ### Accepted drafts -/

section Build

variable [DecidableEq S] [DecidableEq Y] [Diagnostic S] [Diagnostic Y] {d : Draft C F S Y}
  {g : Grammar C F S Y}

/-- Accepted drafts have a grammar, which takes their parts over. -/
theorem build_eq_ok_iff : d.build = .ok g ↔ d.Accepted ∧
    d.initial = some (g.initialState, g.initialConstructor) ∧
      g.recognizers = d.recognizers ∧ g.rules = d.rules := by
  have hsymbols : firstRepeated [] d.symbols = none ↔ d.symbols.Nodup := by
    simp [firstRepeated_eq_none_iff]
  have hkeys : firstFault d.symbols [] d.keys = none ↔
      (∀ k ∈ d.keys, k.2 ∈ d.symbols) ∧ d.keys.Nodup := by
    simp [firstFault_eq_none_iff]
  rw [build]
  constructor
  · intro h
    split at h
    · cases h
    · next s c hinitial =>
      split at h
      · cases h
      · next hrepeated =>
        split at h
        · cases h
        · next hfault =>
          cases h
          obtain ⟨hregistered, hnodup⟩ := hkeys.1 hfault
          exact ⟨⟨by rw [hinitial]; rfl, hsymbols.1 hrepeated, hregistered, hnodup⟩, hinitial, rfl, rfl⟩
  · rintro ⟨h, hinitial, hrecognizers, hrules⟩
    have hrepeated := hsymbols.2 h.nodup_symbols
    have hfault := hkeys.2 ⟨h.registered, h.nodup_keys⟩
    rw [symbols] at hrepeated hfault
    rw [keys] at hfault
    simp only [hinitial, hrepeated, hfault]
    rw [← hrecognizers, ← hrules]

theorem Accepted.exists_build (h : d.Accepted) : ∃ g, d.build = .ok g := by
  obtain ⟨⟨s, c⟩, hinitial⟩ := Option.isSome_iff_exists.1 h.initial
  exact ⟨⟨d.recognizers, d.rules, s, c⟩, build_eq_ok_iff.2 ⟨h, hinitial, rfl, rfl⟩⟩

/-- The fault is the one to be reported of the draft. Each is looked for only if those before it are
not there. -/
inductive Faulty (d : Draft C F S Y) : GrammarError → Prop where
  /-- It is not set where a parse begins. -/
  | missingInitial : d.initial = none → Faulty d .missingInitial
  /-- The symbol is the first that was registered before. -/
  | duplicateRecognizer {y : Y} : d.initial ≠ none →
      FirstOffence (fun before z ↦ z ∈ before) d.symbols y → Faulty d (.duplicateRecognizer (text y))
  /-- The rule is the first that offends, and its symbol is not registered. -/
  | unknownSymbol {s : S} {y : Y} : d.initial ≠ none → d.symbols.Nodup →
      FirstOffence (fun before k ↦ k.2 ∉ d.symbols ∨ k ∈ before) d.keys (s, y) → y ∉ d.symbols →
      Faulty d (.unknownSymbol (text s) (text y))
  /-- The rule is the first that offends, and its symbol is registered. -/
  | duplicateTransition {s : S} {y : Y} : d.initial ≠ none → d.symbols.Nodup →
      FirstOffence (fun before k ↦ k.2 ∉ d.symbols ∨ k ∈ before) d.keys (s, y) → y ∈ d.symbols →
      Faulty d (.duplicateTransition (text s) (text y))

/-- Of a draft that is not accepted the fault is reported. -/
theorem build_eq_error_iff {e : GrammarError} : d.build = .error e ↔ d.Faulty e := by
  have hsymbols : ∀ y, firstRepeated [] d.symbols = some y ↔
      FirstOffence (fun before z ↦ z ∈ before) d.symbols y := by
    simp [firstRepeated_eq_some_iff]
  have hkeys : ∀ e, firstFault d.symbols [] d.keys = some e ↔ ∃ k,
      FirstOffence (fun before k ↦ k.2 ∉ d.symbols ∨ k ∈ before) d.keys k ∧
        e = ruleFault d.symbols k := by
    simp [firstFault_eq_some_iff]
  have hnodup : firstRepeated [] d.symbols = none ↔ d.symbols.Nodup := by
    simp [firstRepeated_eq_none_iff]
  rw [build]
  constructor
  · intro h
    split at h
    · next hinitial =>
      cases h
      exact .missingInitial hinitial
    · next s c hinitial =>
      have hset : d.initial ≠ none := by simp [hinitial]
      split at h
      · next y hy =>
        cases h
        exact .duplicateRecognizer hset ((hsymbols y).1 hy)
      · next hrepeated =>
        split at h
        · next fault hfault =>
          cases h
          obtain ⟨⟨s, y⟩, hoffence, rfl⟩ := (hkeys _).1 hfault
          by_cases hy : y ∈ d.symbols
          · rw [ruleFault, if_neg (not_not_intro hy)]
            exact .duplicateTransition hset (hnodup.1 hrepeated) hoffence hy
          · rw [ruleFault, if_pos hy]
            exact .unknownSymbol hset (hnodup.1 hrepeated) hoffence hy
        · cases h
  · intro h
    cases h with
    | missingInitial hinitial => rw [hinitial]
    | duplicateRecognizer hset hy =>
      obtain ⟨⟨s, c⟩, hinitial⟩ := Option.ne_none_iff_exists'.1 hset
      have hrepeated := (hsymbols _).2 hy
      rw [symbols] at hrepeated
      simp only [hinitial, hrepeated]
    | @unknownSymbol s y hset hdistinct hoffence hy | @duplicateTransition s y hset hdistinct hoffence hy =>
      obtain ⟨⟨s₀, c⟩, hinitial⟩ := Option.ne_none_iff_exists'.1 hset
      have hrepeated := hnodup.2 hdistinct
      have hfault := (hkeys _).2 ⟨_, hoffence, rfl⟩
      rw [symbols] at hrepeated
      rw [ruleFault, symbols, keys] at hfault
      rw [symbols] at hy
      simp only [hinitial, hrepeated, hfault, hy, not_true_eq_false, not_false_eq_true, if_true,
        if_false]

/-! ### Tables -/

/-- The grammar answers from the draft. -/
structure Tabulates (d : Draft C F S Y) (g : Grammar C F S Y) : Prop where
  /-- The symbols applicable in a state are in the order of registration. -/
  sublist : ∀ s, (g.applicable s).Sublist d.symbols
  /-- None of them is repeated. -/
  nodup : ∀ s, (g.applicable s).Nodup
  /-- They are those that have a rule there. -/
  mem_applicable : ∀ s y, y ∈ g.applicable s ↔ (s, y) ∈ d.keys
  /-- The rules are those that were registered. -/
  rule?_iff : ∀ s y r, g.rule? s y = some r ↔ ((s, y), r) ∈ d.rules
  /-- The first applicable symbol whose recognizer accepts a fragment is its symbol. -/
  recognize_eq : ∀ s x, g.recognize s x =
    (g.applicable s).find? fun y ↦ (d.recognizers.lookup y).any fun accepts ↦ accepts x

omit [Diagnostic S] [Diagnostic Y] in
theorem Accepted.isSome_rule?_iff (h : d.Accepted) (hrules : g.rules = d.rules) {s : S} {y : Y} :
    (g.rule? s y).isSome = true ↔ (s, y) ∈ d.keys := by
  rw [Option.isSome_iff_exists, keys, List.mem_map]
  constructor
  · rintro ⟨r, hr⟩
    rw [Grammar.rule?, hrules, lookup_eq_some_iff_mem h.nodup_keys] at hr
    exact ⟨_, hr, rfl⟩
  · rintro ⟨⟨k, r⟩, hmem, rfl⟩
    exact ⟨r, by rw [Grammar.rule?, hrules, lookup_eq_some_iff_mem h.nodup_keys]; exact hmem⟩

theorem tabulates_of_build (h : d.build = .ok g) : d.Tabulates g := by
  obtain ⟨haccepted, -, hrecognizers, hrules⟩ := build_eq_ok_iff.1 h
  have hsymbols : g.symbols = d.symbols := by rw [Grammar.symbols, hrecognizers, symbols]
  refine ⟨fun s ↦ ?_, fun s ↦ ?_, fun s y ↦ ?_, fun s y r ↦ ?_, fun s x ↦ ?_⟩
  · rw [Grammar.applicable, hsymbols]
    exact List.filter_sublist
  · rw [Grammar.applicable, hsymbols]
    exact haccepted.nodup_symbols.filter _
  · rw [Grammar.applicable, hsymbols, List.mem_filter, haccepted.isSome_rule?_iff hrules]
    exact and_iff_right_of_imp fun hkey ↦ haccepted.registered _ hkey
  · rw [Grammar.rule?, hrules, lookup_eq_some_iff_mem haccepted.nodup_keys]
  · -- a registered symbol leads to the recognizer that stands with it
    have hlookup : ∀ e ∈ d.recognizers, d.recognizers.lookup e.1 = some e.2 := fun e he ↦
      (lookup_eq_some_iff_mem haccepted.nodup_symbols).2 he
    rw [Grammar.applicable, hsymbols, symbols, List.find?_filter, List.find?_map,
      Grammar.recognize, hrecognizers]
    refine congrArg (Option.map Prod.fst) (List.find?_congr fun e he ↦ ?_)
    rw [Function.comp_apply, hlookup e he, Option.any_some, Bool.decide_and, Bool.decide_eq_true,
      Bool.decide_eq_true]

end Build

end Grammar.Draft

end FragmentParser
