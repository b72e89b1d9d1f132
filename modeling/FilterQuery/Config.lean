import FilterQuery.Options.Json
import FilterQuery.Toml.Reader
set_option autoImplicit false

/-!
The settings of a command line that a configuration file may hold. Every entry may be absent, and
unknown entries do not matter.
-/

namespace FilterQuery

structure Config where
  adapter : Text
  table : Option Text
  ignore : List Text
  allow : List Text
  whitelist : Bool
  select : List Text
  groupBy : List Text
  collections : List (Text × Text)
  options : Option Options

namespace Config

def default : Config := ⟨"sql".toList, none, [], [], false, [], [], [], none⟩

def texts? (x : Json) : Option (List Text) := x.array?.bind fun xs => xs.mapM Json.text?

def textFields? : Json → Option (List (Text × Text))
  | .object fields => fields.mapM fun (k, x) => x.text?.map fun t => (k, t)
  | _ => none

open OptionsReader in
def ofJson? (x : Json) : Option Config := do
  match ← parts? ["adapter", "table", "ignore", "allow", "whitelist", "select", "group-by",
    "collections", "options"] x with
  | [adapter, table, ignore, allow, whitelist, select, groupBy, collections, options] =>
    some ⟨← orDefault default.adapter Json.text? adapter,
      ← orDefault none (optional Json.text?) table,
      ← orDefault [] texts? ignore,
      ← orDefault [] texts? allow,
      ← orDefault false Json.bool? whitelist,
      ← orDefault [] texts? select,
      ← orDefault [] texts? groupBy,
      ← orDefault [] textFields? collections,
      ← orDefault none (optional options?) options⟩
  | _ => none

def read (t : Text) : Option Config := (Toml.read t).bind ofJson?

end Config

end FilterQuery
