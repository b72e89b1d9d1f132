import FilterQuery.Value
set_option autoImplicit false

/-!
What dialects of SQL write differently: quoted names, timestamp literals and the regex operator.
-/

namespace FilterQuery.Sql

/-- The standard dialect quotes names with grave accents. -/
inductive Dialect where
  | standard
  | postgres
  deriving DecidableEq, Repr

def quote (mark : Char) (t : Text) : Text := mark :: Text.replace mark [mark, mark] t ++ [mark]

def defaultRegexOperator : Text := "REGEXP".toList

namespace Dialect

def name : Dialect → Text
  | standard => "standard".toList
  | postgres => "postgres".toList

def find? (t : Text) : Option Dialect :=
  let t := Text.lower (Text.trim t)
  if ["standard", "mysql", "sqlite", "default"].any (·.toList == t) then some standard
  else if ["postgres", "postgresql", "pg"].any (·.toList == t) then some postgres
  else none

def mark : Dialect → Char
  | standard => '\x60'
  | postgres => '"'

def identifier (d : Dialect) (t : Text) : Text := quote d.mark t

def text (t : Text) : Text := quote '\'' t

/-- A field name; each of its segments is quoted on its own. -/
def field (d : Dialect) (t : Text) : Text :=
  Text.join ['.'] ((t.splitOn '.').map d.identifier)

def column (d : Dialect) (table name : Text) : Text := d.identifier table ++ '.' :: d.field name

def timestamp (d : Dialect) (t : Timestamp) : Text :=
  match d with
  | standard => text (t.writeDate ++ ' ' :: t.writeTime)
  | postgres => "TIMESTAMPTZ ".toList ++ text (t.writeWith "+00:00".toList)

/-- The operator for regex matches where the shared one is as given. Postgres has no default
operator of that name and takes its own. -/
def regexOperator (d : Dialect) (shared : Text) : Text :=
  match d with
  | standard => shared
  | postgres => if shared = defaultRegexOperator then ['~'] else shared

end Dialect

end FilterQuery.Sql
