import FragmentParser.Chunking.Basic

/-!
# Command lines

The arguments of the command are a path and **options**: some with a value, some without. An option
with a value takes it from behind an equals sign, from the rest of its argument if it is a single
letter, or from the next argument. Two dashes alone end the options.

Arguments are looked at one after another, and the first fault or request for help decides. An
option may be given once only. A value that is an argument of its own does not begin with a dash,
unless it is nothing but a dash.
-/

namespace FragmentParser.Command

/-- An option with a value. -/
inductive Parameter where
  /-- The grammar. -/
  | grammar
  /-- How the text is cut. -/
  | chunking
  /-- The format of the output. -/
  | format
  /-- The file of settings. -/
  | config
deriving DecidableEq

/-- An option without a value. -/
inductive Flag where
  /-- Trace the parse. -/
  | trace
  /-- List the grammars. -/
  | listGrammars
  /-- List the formats. -/
  | listFormats
deriving DecidableEq

/-- What an option means. -/
inductive Meaning where
  /-- It has a value. -/
  | parameter (p : Parameter)
  /-- It has no value. -/
  | flag (f : Flag)
  /-- It asks for help. -/
  | help
  /-- It asks for the version. -/
  | version

/-- Why a command line is refused. -/
inductive UsageError where
  /-- There are no arguments. -/
  | noArguments
  /-- There is no such option, or a second path. -/
  | unknown (argument : String)
  /-- An option lacks its value. -/
  | missingValue (p : Parameter)
  /-- A flag was given a value. -/
  | unwantedValue (argument : String)
  /-- An option was given twice. -/
  | repeated (argument : String)
  /-- A value is not one of those that the option can have. -/
  | invalidValue (p : Parameter) (value : String)
  /-- There is no path. -/
  | missingPath
deriving DecidableEq

/-- The meaning of a long option, without its dashes. -/
def longMeaning? : String → Option Meaning
  | "grammar" => some (.parameter .grammar)
  | "chunking" => some (.parameter .chunking)
  | "format" => some (.parameter .format)
  | "config" => some (.parameter .config)
  | "trace" => some (.flag .trace)
  | "list-grammars" => some (.flag .listGrammars)
  | "list-formats" => some (.flag .listFormats)
  | "help" => some .help
  | "version" => some .version
  | _ => none

/-- The meaning of a single letter. -/
def shortMeaning? : Char → Option Meaning
  | 'g' => some (.parameter .grammar)
  | 'f' => some (.parameter .format)
  | 'c' => some (.parameter .config)
  | 'h' => some .help
  | 'V' => some .version
  | _ => none

/-- The long name of an option with a value. -/
def Parameter.name : Parameter → String
  | .grammar => "grammar"
  | .chunking => "chunking"
  | .format => "format"
  | .config => "config"

/-- What has been given so far. -/
structure Given where
  /-- The options with their values. -/
  values : List (Parameter × String) := []
  /-- The flags. -/
  flags : List Flag := []
  /-- The path. -/
  path : Option String := none

/-- What a command line asks for. -/
inductive Request where
  /-- The help text. -/
  | help
  /-- The version. -/
  | version
  /-- What was given, with nothing wrong with it. -/
  | run (given : Given)

namespace Given

/-- The value of an option. -/
def value? (g : Given) (p : Parameter) : Option String := g.values.lookup p

/-- Whether a flag was given. -/
def has (g : Given) (f : Flag) : Bool := f ∈ g.flags

/-- Give an option its value. -/
def setValue (g : Given) (p : Parameter) (v : String) : Except UsageError Given :=
  if p = .chunking ∧ v ∉ Chunking.all.map Chunking.name then .error (.invalidValue p v)
  else if (g.value? p).isSome then .error (.repeated p.name)
  else .ok { g with values := (p, v) :: g.values }

/-- Give a flag. -/
def setFlag (g : Given) (f : Flag) (argument : String) : Except UsageError Given :=
  if g.has f then .error (.repeated argument) else .ok { g with flags := f :: g.flags }

/-- Give the path. -/
def setPath (g : Given) (path : String) : Except UsageError Given :=
  match g.path with
  | none => .ok { g with path := some path }
  | some _ => .error (.unknown path)

/-- Whether nothing is missing: the path may be left out if something is to be listed. -/
def complete (g : Given) : Except UsageError Given :=
  if g.path.isSome ∨ g.has .listGrammars ∨ g.has .listFormats then .ok g else .error .missingPath

end Given

/-- An argument by its dashes. -/
inductive Argument where
  /-- Two dashes alone. -/
  | endOfOptions
  /-- A long option, with the value behind its equals sign. -/
  | long (name : String) (value : Option String)
  /-- A single letter, with the value in the rest of the argument. -/
  | short (letter : Char) (value : Option String)
  /-- Anything else. -/
  | plain

/-- The form of an argument. -/
def Argument.ofString (s : String) : Argument :=
  match s.toList with
  | ['-', '-'] => .endOfOptions
  | '-' :: '-' :: cs =>
    let name := cs.takeWhile (· ≠ '=')
    let value := match cs.dropWhile (· ≠ '=') with
      | [] => none
      | _ :: v => some (String.ofList v)
    .long (String.ofList name) value
  | '-' :: c :: cs =>
    let value := match cs with
      | [] => none
      | '=' :: v => some (String.ofList v)
      | v => some (String.ofList v)
    .short c value
  | _ => .plain

/-- Read arguments, given what they mean together with those before. `pending` is an option whose
value is to come next, and behind the end of the options all arguments are plain. -/
def readArguments (given : Given) (pending : Option Parameter) (ended : Bool) :
    List String → Except UsageError Request
  | [] =>
    match pending with
    | some p => .error (.missingValue p)
    | none => given.complete.map .run
  | arg :: rest =>
    match pending, if ended then .plain else Argument.ofString arg with
    | some p, .plain => do readArguments (← given.setValue p arg) none ended rest
    | some p, _ => .error (.missingValue p)
    | none, .plain => do readArguments (← given.setPath arg) none ended rest
    | none, .endOfOptions => readArguments given none true rest
    | none, .long name value =>
      match longMeaning? name, value with
      | none, _ => .error (.unknown arg)
      | some (.parameter p), none => readArguments given (some p) ended rest
      | some (.parameter p), some v => do readArguments (← given.setValue p v) none ended rest
      | some _, some _ => .error (.unwantedValue arg)
      | some (.flag f), none => do readArguments (← given.setFlag f arg) none ended rest
      | some .help, none => .ok .help
      | some .version, none => .ok .version
    | none, .short letter value =>
      match shortMeaning? letter, value with
      | none, _ => .error (.unknown arg)
      | some (.parameter p), none => readArguments given (some p) ended rest
      | some (.parameter p), some v => do readArguments (← given.setValue p v) none ended rest
      | some (.flag f), _ => do readArguments (← given.setFlag f arg) none ended rest
      | some .help, _ => .ok .help
      | some .version, _ => .ok .version

/-- What a command line asks for. -/
def Request.ofArguments (args : List String) : Except UsageError Request :=
  if args.isEmpty then .error .noArguments else readArguments {} none false args

/-- The message for a command line that is refused. -/
def UsageError.message : UsageError → String
  | .noArguments => "no arguments were given"
  | .unknown argument => "unexpected argument '" ++ argument ++ "' found"
  | .missingValue p => "a value is required for '--" ++ p.name ++ "' but none was supplied"
  | .unwantedValue argument => "unexpected value in '" ++ argument ++ "'"
  | .repeated argument => "the argument '" ++ argument ++ "' cannot be used multiple times"
  | .invalidValue p value => "invalid value '" ++ value ++ "' for '--" ++ p.name ++ "'"
  | .missingPath => "a path is required"

end FragmentParser.Command
