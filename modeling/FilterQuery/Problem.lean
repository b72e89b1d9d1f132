import FilterQuery.Location
import FilterQuery.Expr
set_option autoImplicit false

/-!
What can be wrong with the structure of filter text. A `Fault` is a cause with its wording, a
`Problem` a worded fault at its place.
-/

namespace FilterQuery

/-- The two kinds of nesting. -/
inductive Bracket where
  | round
  | square
  deriving DecidableEq, Repr

namespace Bracket

def opening : Bracket → Char
  | round => '('
  | square => '['

def closing : Bracket → Char
  | round => ')'
  | square => ']'

def ofOpening? (c : Char) : Option Bracket :=
  if c = '(' then some round else if c = '[' then some square else none

def ofClosing? (c : Char) : Option Bracket :=
  if c = ')' then some round else if c = ']' then some square else none

end Bracket

inductive Fault where
  | unmatchedClose (b : Bracket)
  | mismatchedClose (opened closed : Bracket)
  | unclosed (b : Bracket)
  | openLiteral
  | leadingJunction (j : Junction)
  | danglingNot
  | trailingOperator (symbol : Text)
  | emptySection (mark : Text)
  deriving DecidableEq, Repr

namespace Fault

def ticked (t : Text) : Text := '\x60' :: t ++ ['\x60']

def message : Fault → Text
  | unmatchedClose b => "Unmatched closing ".toList ++ ticked [b.closing]
  | mismatchedClose o c =>
    ticked [c.closing] ++ " does not match the open ".toList ++ ticked [o.opening]
  | unclosed b => "Unclosed ".toList ++ ticked [b.opening]
  | openLiteral => "Unterminated string literal".toList
  | leadingJunction j => "Filter starts with the operator ".toList ++ ticked j.word
  | danglingNot => ticked notWord ++ " has nothing to negate".toList
  | trailingOperator s => "Filter ends with the operator ".toList ++ ticked s
  | emptySection m => "Section ".toList ++ ticked m ++ " has no entries".toList

def suggestion : Fault → Text
  | unmatchedClose b => "Remove it or add a matching ".toList ++ ticked [b.opening] ++
      " before it".toList
  | mismatchedClose o _ => "Add a matching ".toList ++ ticked [o.closing]
  | unclosed b => "Add a matching ".toList ++ ticked [b.closing]
  | openLiteral => "Add a closing ".toList ++ ticked ['"']
  | leadingJunction _ => "Remove it or add an operand before it".toList
  | danglingNot => "Remove it or add an operand before it".toList
  | trailingOperator _ => "Add an operand after it or remove it".toList
  | emptySection _ => "Add entries after it or remove it".toList

end Fault

structure Problem where
  message : Text
  suggestion : Text
  location : Location
  deriving DecidableEq, Repr

namespace Problem

def ofFault (t : Text) (offset : Nat) (f : Fault) : Problem :=
  ⟨f.message, f.suggestion, Location.ofOffset t offset⟩

def write (p : Problem) : Text :=
  p.message ++ " at line ".toList ++ Text.ofNat p.location.line ++ ", column ".toList ++
    Text.ofNat p.location.column

end Problem

/-- A given text that is still faulty after its repair. -/
structure RepairFailure where
  given : Text
  repaired : Text
  problem : Problem
  deriving DecidableEq, Repr

def RepairFailure.write (f : RepairFailure) : Text :=
  "unable to repair filter: ".toList ++ f.problem.write

end FilterQuery
