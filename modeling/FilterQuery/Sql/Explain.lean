import FilterQuery.Sql.Dialect
set_option autoImplicit false

/-!
SQL with its arguments written in place of the placeholders, for people to read. A question mark
between quote marks of any of the three kinds is no placeholder.
-/

namespace FilterQuery.Sql

def isMark (c : Char) : Bool := c = '\'' || c = '"' || c = '\x60'

def openMark (opened : Option Char) (c : Char) : Option Char :=
  match opened with
  | some m => if c = m then none else some m
  | none => if isMark c then some c else none

def isPlaceholder (opened : Option Char) (c : Char) : Bool := opened.isNone && c = '?'

/-- The byte offsets of the placeholders of a text whose first byte has the given offset. -/
def placeholdersFrom (opened : Option Char) (offset : Nat) : Text → List Nat
  | [] => []
  | c :: t =>
    let rest := placeholdersFrom (openMark opened c) (offset + c.utf8Size) t
    if isPlaceholder opened c then offset :: rest else rest

def placeholders (t : Text) : List Nat := placeholdersFrom none 0 t

/-- Every digit is written and nothing else, however large or small the number is. -/
def floatLayout : FloatLayout := ⟨-400, 400, false, false, .up, "NULL".toList, "NULL".toList⟩

mutual

/-- The literal of a value. Numbers that are not finite have none and become null. -/
def literal (d : Dialect) : Value → Text
  | .int n => Text.ofInt n.toInt
  | .float x => if x.isFinite then x.write floatLayout else "NULL".toList
  | .bool b => if b then "TRUE".toList else "FALSE".toList
  | .text t => Dialect.text t
  | .time t => d.timestamp t
  | .null => "NULL".toList
  | .list vs => '(' :: Text.join ", ".toList (literalEach d vs) ++ [')']

def literalEach (d : Dialect) : List Value → List Text
  | [] => []
  | v :: vs => literal d v :: literalEach d vs

end

def inlineFrom (d : Dialect) (opened : Option Char) (args : List Value) : Text → Text
  | [] => []
  | c :: t =>
    match isPlaceholder opened c, args with
    | true, v :: vs => literal d v ++ inlineFrom d (openMark opened c) vs t
    | _, _ => c :: inlineFrom d (openMark opened c) args t

def inline (d : Dialect) (t : Text) (args : List Value) : Text := inlineFrom d none args t

end FilterQuery.Sql
