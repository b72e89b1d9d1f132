import FilterQuery.Compiler
set_option autoImplicit false

/-!
Compiling, checking and repairing one filter text with the default settings, for callers that pass
texts in and take texts out.
-/

namespace FilterQuery.OneShot

def adapterName? (dialect : Text) : Option Text :=
  if ["", "standard", "sql"].any (·.toList == dialect) then some "sql".toList
  else if dialect = "postgres".toList then some "postgres".toList
  else none

def invalidDialect : Text := "Invalid dialect".toList

def sqlJson (sql : Text) (args : List Value) : Json :=
  .object [("sql".toList, .text sql), ("args".toList, .array (args.map Value.toPlain))]

def compile [Regex.Engine] (shared filter table dialect : Text) : Except Text Text :=
  match adapterName? dialect with
  | none => .error invalidDialect
  | some adapter =>
    match ((Compiler.new .default).compile ⟨0, shared⟩ ⟨adapter, ⟨some table, []⟩, none⟩ filter).1 with
    | .ok (.sql sql args) => .ok (sqlJson sql args).write
    | .ok (.document _ _) => .error invalidDialect
    | .error e => .error e.message

def validate (filter : Text) : Except Text Unit :=
  match Diagnosis.first? filter with
  | some p => .error p.write
  | none => .ok ()

end FilterQuery.OneShot
