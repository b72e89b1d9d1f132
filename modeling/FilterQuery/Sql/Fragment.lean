import FilterQuery.Value
set_option autoImplicit false

/-!
Pieces of SQL with the arguments of their placeholders in the order of the text. Joining skips
empty pieces, so a condition that says nothing leaves no trace.
-/

namespace FilterQuery.Sql

structure Fragment where
  content : Text
  args : List Value

namespace Fragment

def empty : Fragment := ⟨[], []⟩

def atom (t : Text) : Fragment := ⟨t, []⟩

def placeholder (v : Value) : Fragment := ⟨['?'], [v]⟩

def isEmpty (f : Fragment) : Bool := f.content.isEmpty

def parenthesize (f : Fragment) : Fragment := ⟨'(' :: f.content ++ [')'], f.args⟩

def join (separator : Text) (fs : List Fragment) : Fragment :=
  let fs := fs.filter fun f => !f.isEmpty
  ⟨Text.join separator (fs.map content), fs.flatMap args⟩

def spaced (fs : List Fragment) : Fragment := join [' '] fs

def comparison (left : Fragment) (operator : Text) (right : Fragment) : Fragment :=
  spaced [left, atom operator, right]

/-- Conditions joined by a word, in parentheses if there are two or more. -/
def conditions (word : Text) (fs : List Fragment) : Fragment :=
  match fs.filter fun f => !f.isEmpty with
  | [] => empty
  | [f] => f
  | fs => (join (' ' :: word ++ [' ']) fs).parenthesize

def andWord : Text := "AND".toList

def orWord : Text := "OR".toList

def not (f : Fragment) : Fragment :=
  if f.isEmpty then f else ⟨"NOT ".toList ++ f.parenthesize.content, f.args⟩

def lower (f : Fragment) : Fragment := ⟨"LOWER".toList ++ f.parenthesize.content, f.args⟩

/-- Membership in a list; an empty list says nothing. -/
def member (negated : Bool) (f : Fragment) (vs : List Value) : Fragment :=
  if vs.isEmpty then empty
  else
    comparison f (if negated then "NOT IN".toList else "IN".toList)
      (join ", ".toList (vs.map placeholder)).parenthesize

def between (f low high : Fragment) : Fragment :=
  spaced [f, atom "BETWEEN".toList, low, atom andWord, high]

def null (negated : Bool) (f : Fragment) : Fragment :=
  spaced [f, atom (if negated then "IS NOT NULL".toList else "IS NULL".toList)]

def always : Fragment := atom "1=1".toList

end Fragment

end FilterQuery.Sql
