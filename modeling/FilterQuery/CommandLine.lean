import FilterQuery.Command
import FilterQuery.Config
import FilterQuery.OneShot
set_option autoImplicit false

/-!
Carrying out a command: what is printed, what is reported as an error, and the exit code. Files and
input come in as texts, so that nothing here depends on the world.
-/

namespace FilterQuery

structure Outcome where
  code : Nat
  output : Text
  errors : Text
  deriving DecidableEq, Repr

namespace Outcome

def success (line : Text) : Outcome := ⟨0, line ++ ['\n'], []⟩

def failure (message : Text) : Outcome := ⟨1, [], "error: ".toList ++ message ++ ['\n']⟩

def misuse : Outcome := ⟨2, [], []⟩

end Outcome

namespace CommandLine

def filterText (c : Command) (input : Text) : Text := c.filter.getD (Text.trimEnd input)

def parse [Regex.Engine] (t : Text) : Outcome := .success ((Request.read t).toJson.writeIndented 0)

def problemLines (p : Problem) : Text :=
  p.write ++ "\n  near \x60".toList ++ p.location.context ++ "\x60\n".toList ++
    if p.suggestion = [] then [] else "  ".toList ++ p.suggestion ++ ['\n']

def validate (t : Text) : Outcome :=
  match Diagnosis.problems t with
  | [] => .success "ok".toList
  | ps =>
    { Outcome.failure (Text.ofNat ps.length ++ " problem(s) found".toList) with
      output := ps.flatMap problemLines }

def repair (check : Bool) (t : Text) : Outcome :=
  if check then
    match Text.repairChecked t with
    | .ok repaired => .success repaired
    | .error f => .failure f.write
  else .success (Text.repair t)

/-- The options of a compilation: the command line goes before the file, and the file before the
environment. -/
def options (s : CompileSettings) (c : Config) (env : Environment) : Options :=
  let o := c.options.getD (Options.ofEnvironment env)
  { o with
    naming := s.naming.getD o.naming
    validation := s.validation.getD o.validation
    resolution := s.resolution.getD o.resolution }

def orFile (given file : List Text) : List Text := if given.isEmpty then file else given

def compiler (s : CompileSettings) (c : Config) (env : Environment) : Compiler :=
  let allow := orFile s.allow c.allow
  (Compiler.new (options s c env)).modifyState fun st =>
    (((((st.setIgnored (orFile s.ignore c.ignore)).setWhitelist
      (c.whitelist || !allow.isEmpty)).setAllowed allow).setSelected
      (orFile s.select c.select)).setGroupBy (orFile s.groupBy c.groupBy))

def dialectAdapter : Text := "dialect".toList

def chooseAdapter (s : CompileSettings) (c : Config) (compiler : Compiler) :
    Except Text (Compiler × Text) :=
  match s.dialect with
  | none => .ok (compiler, s.adapter.getD c.adapter)
  | some name =>
    match Sql.Dialect.find? name with
    | none => .error ("unknown dialect \x60".toList ++ name ++ ['\x60'])
    | some d =>
      let a := Adapter.sql dialectAdapter d compiler.options.regexOperator
      .ok (compiler.registerAdapter dialectAdapter a, dialectAdapter)

/-- A query as it is printed: SQL with its arguments in a comment or both as JSON, and a document
query as JSON. -/
def queryText (json : Bool) : Query → Text
  | .sql sql args =>
    if json then (OneShot.sqlJson sql args).writeIndented 0
    else if args.isEmpty then sql
    else sql ++ "\n-- args: ".toList ++ (Json.array (args.map Value.toPlain)).write
  | .document collection parts =>
    (Json.object [("collection".toList, .text collection), ("parts".toList, parts)]).writeIndented 0

def ofResult (r : Except Failure Text) : Outcome :=
  match r with
  | .ok t => .success t
  | .error e => .failure e.message

def compile [Regex.Engine] (s : CompileSettings) (c : Config) (env : Environment) (t : Text) :
    Outcome :=
  let around : Surroundings := ⟨0, Sql.defaultRegexOperator⟩
  match (compiler s c env).parse around t with
  | (.error e, _) => .failure e.message
  | (.ok _, compiler) =>
    match chooseAdapter s c compiler with
    | .error message => .failure message
    | .ok (compiler, adapter) =>
      let order : Compiler.Order :=
        ⟨adapter, ⟨s.table.or c.table, c.collections⟩, s.parts.map Part.readList⟩
      if s.explain then ofResult (compiler.explain around order).1
      else ofResult ((compiler.renderQuery around order).1.map (queryText s.json))

abbrev FileContent := Except Text Text

/-- The configuration of a compilation from the content of its file. A file that is no
configuration is reported without a line end. -/
def loadConfig (s : CompileSettings) (content : FileContent) : Except Outcome Config :=
  match s.config, content with
  | none, _ => .ok .default
  | some path, .error cause =>
    .error (.failure ("reading config file ".toList ++ path ++ ": ".toList ++ cause))
  | some _, .ok t =>
    match Config.read t with
    | some c => .ok c
    | none => .error ⟨1, [], "error: parsing config file".toList⟩

def run [Regex.Engine] (c : Command) (env : Environment) (file : FileContent) (input : Text) :
    Outcome :=
  let t := filterText c input
  match c.task with
  | .parse => parse t
  | .validate => validate t
  | .repair check => repair check t
  | .compile s =>
    match loadConfig s file with
    | .error o => o
    | .ok config => compile s config env t

end CommandLine

end FilterQuery
