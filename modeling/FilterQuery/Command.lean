import FilterQuery.Options
set_option autoImplicit false

/-!
Command lines. An option has a long name and perhaps a letter; its value stands behind an equals
sign, right behind the letter, or in the next argument, which must not look like an option then.
Behind `--` every argument is positional. `Command.read` is the command of a list of arguments,
none if they are not used as they should be.
-/

namespace FilterQuery

/-- Whether an option has a value, and whether it may be repeated if it has. -/
inductive OptionKind where
  | flag
  | single
  | many
  deriving DecidableEq, Repr

structure OptionSpec where
  name : String
  letter : Option Char
  kind : OptionKind
  deriving DecidableEq, Repr

inductive Argument where
  | flag (name : String)
  | option (name : String) (value : Text)
  | positional (t : Text)
  deriving DecidableEq, Repr

namespace Argument

def looksLikeOption : Text → Bool
  | '-' :: _ :: _ => true
  | _ => false

def splitValue (t : Text) : Text × Option Text :=
  match t.dropWhile (· ≠ '=') with
  | _ :: value => (t.takeWhile (· ≠ '='), some value)
  | [] => (t, none)

def attached? : Text → Option Text
  | [] => none
  | '=' :: value => some value
  | value => some value

def readAll (specs : List OptionSpec) : List Text → Option (List Argument)
  | [] => some []
  | ['-', '-'] :: rest => some (rest.map positional)
  | a :: rest =>
    let found : Option (Option (OptionSpec × Option Text)) :=
      match a with
      | '-' :: '-' :: body =>
        let (name, value) := splitValue body
        some ((specs.find? (·.name.toList == name)).map fun s => (s, value))
      | '-' :: c :: body =>
        some ((specs.find? (·.letter == some c)).map fun s => (s, attached? body))
      | _ => none
    match found, rest with
    | none, rest => (readAll specs rest).map (positional a :: ·)
    | some none, _ => none
    | some (some (s, value)), rest =>
      match s.kind, value, rest with
      | .flag, none, rest => (readAll specs rest).map (flag s.name :: ·)
      | .flag, some _, _ => none
      | _, some v, rest => (readAll specs rest).map (option s.name v :: ·)
      | _, none, v :: rest =>
        if looksLikeOption v then none else (readAll specs rest).map (option s.name v :: ·)
      | _, none, [] => none

end Argument

/-- The arguments of a command by their roles. -/
structure Arguments where
  given : List Argument
  deriving DecidableEq, Repr

namespace Arguments

def positionals (a : Arguments) : List Text :=
  a.given.filterMap fun
    | .positional t => some t
    | _ => none

def values (a : Arguments) (name : String) : List Text :=
  a.given.filterMap fun
    | .option n v => if n = name then some v else none
    | _ => none

def value? (a : Arguments) (name : String) : Option Text := (a.values name).head?

def list (a : Arguments) (name : String) : List Text := (a.values name).flatMap (·.splitOn ',')

def has (a : Arguments) (name : String) : Bool := a.given.contains (.flag name)

def isWellFormed (specs : List OptionSpec) (a : Arguments) : Bool :=
  a.positionals.length ≤ 1 &&
    specs.all fun s =>
      match s.kind with
      | .flag => a.given.count (.flag s.name) ≤ 1
      | .single => (a.values s.name).length ≤ 1
      | .many => true

def read (specs : List OptionSpec) (args : List Text) : Option Arguments :=
  ((Argument.readAll specs args).map Arguments.mk).filter (isWellFormed specs)

end Arguments

/-- What a compilation is told on the command line. -/
structure CompileSettings where
  config : Option Text
  adapter : Option Text
  dialect : Option Text
  table : Option Text
  ignore : List Text
  allow : List Text
  select : List Text
  groupBy : List Text
  naming : Option Naming
  validation : Option Validation
  resolution : Option Resolution
  parts : Option Text
  explain : Bool
  json : Bool
  deriving DecidableEq, Repr

inductive Task where
  | compile (s : CompileSettings)
  | parse
  | validate
  | repair (check : Bool)
  deriving DecidableEq, Repr

/-- A task and the filter text for it; without one it is read from the input. -/
structure Command where
  task : Task
  filter : Option Text
  deriving DecidableEq, Repr

namespace Command

def compileOptions : List OptionSpec :=
  [⟨"config", some 'c', .single⟩, ⟨"adapter", some 'a', .single⟩,
    ⟨"dialect", some 'd', .single⟩, ⟨"table", some 't', .single⟩, ⟨"ignore", none, .many⟩,
    ⟨"allow", none, .many⟩, ⟨"select", none, .many⟩, ⟨"group-by", none, .many⟩,
    ⟨"naming", none, .single⟩, ⟨"validation", none, .single⟩, ⟨"resolution", none, .single⟩,
    ⟨"parts", none, .single⟩, ⟨"explain", none, .flag⟩, ⟨"json", none, .flag⟩]

def repairOptions : List OptionSpec := [⟨"check", none, .flag⟩]

def optional {α : Type} (read : Text → Except UnknownSetting α) : Option Text → Option (Option α)
  | none => some none
  | some t => (read t).toOption.map some

def compileSettings? (a : Arguments) : Option CompileSettings := do
  let naming ← optional Naming.read (a.value? "naming")
  let validation ← optional Validation.read (a.value? "validation")
  let resolution ← optional Resolution.read (a.value? "resolution")
  if a.value? "config" = some [] then none
  else
    some ⟨a.value? "config", a.value? "adapter", a.value? "dialect", a.value? "table",
      a.list "ignore", a.list "allow", a.list "select", a.list "group-by", naming, validation,
      resolution, a.value? "parts", a.has "explain", a.has "json"⟩

def readTask (name : Text) (args : List Text) : Option Command :=
  if name = "compile".toList then do
    let a ← Arguments.read compileOptions args
    some ⟨.compile (← compileSettings? a), a.positionals.head?⟩
  else if name = "parse".toList then do
    let a ← Arguments.read [] args
    some ⟨.parse, a.positionals.head?⟩
  else if name = "validate".toList then do
    let a ← Arguments.read [] args
    some ⟨.validate, a.positionals.head?⟩
  else if name = "repair".toList then do
    let a ← Arguments.read repairOptions args
    some ⟨.repair (a.has "check"), a.positionals.head?⟩
  else none

def read : List Text → Option Command
  | [] => none
  | name :: args => readTask name args

def configPath (c : Command) : Option Text :=
  match c.task with
  | .compile s => s.config
  | _ => none

end Command

end FilterQuery
