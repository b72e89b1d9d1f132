import FilterQuery.Text.Letter
set_option autoImplicit false

/-!
How field names are spelled: as they are, or in snake case with each dot-separated segment on its
own. Two names are loosely equal if they have the same ASCII letters and digits in any case.
-/

namespace FilterQuery

/-- The case of the cased letter before a place, if there is one in its word. -/
inductive Casing where
  | uncased
  | lower
  | upper
  deriving DecidableEq, Repr

namespace Casing

def next (k : Casing) (c : Char) : Casing :=
  if Letter.isLower c then lower else if Letter.isUpper c then upper else k

end Casing

namespace SnakeCase

/-- The words of a run of letters and digits. A word ends between a small and a capital letter,
and before the last of several capital letters if a small one follows it. -/
def splitCase (k : Casing) : Text → List Text
  | [] => []
  | [c] => [[c]]
  | c :: d :: t =>
    if k.next c = .lower ∧ Letter.isUpper d then [c] :: splitCase .uncased (d :: t)
    else if k = .upper ∧ Letter.isUpper c ∧ Letter.isLower d then
      [] :: (splitCase .uncased (d :: t)).modifyHead (c :: ·)
    else (splitCase (k.next c) (d :: t)).modifyHead (c :: ·)

/-- A word in small letters; a sigma at its end takes its final form. -/
def lowerWord : Text → Text
  | [] => []
  | [c] => if c = 'Σ' then ['ς'] else Letter.lower c
  | c :: d :: t => Letter.lower c ++ lowerWord (d :: t)

def segment (t : Text) : Text :=
  Text.join ['_']
    ((Text.words (fun c => !Letter.isAlphanumeric c) t).flatMap fun run =>
      (splitCase .uncased run).map lowerWord)

end SnakeCase

inductive Naming where
  | asIs
  | snakeCase
  deriving DecidableEq, Repr

def Naming.apply : Naming → Text → Text
  | asIs, t => t
  | snakeCase, t => Text.join ['.'] ((t.splitOn '.').map SnakeCase.segment)

def Text.folded (t : Text) : Text := Text.lower (t.filter Text.isLetterOrDigit)

def looselyEqual (a b : Text) : Bool := Text.folded a == Text.folded b

/-- How listed names are found: by their spelling, or up to loose equality. -/
inductive Resolution where
  | strict
  | flexible
  deriving DecidableEq, Repr

namespace Resolution

def same : Resolution → Text → Text → Bool
  | strict, a, b => a == b
  | flexible, a, b => looselyEqual a b

/-- The listed name that a name stands for. The same spelling goes before a loosely equal one. -/
def find? (r : Resolution) (names : List Text) (name : Text) : Option Text :=
  match r with
  | strict => names.find? (· == name)
  | flexible => (names.find? (· == name)).or (names.find? fun n => looselyEqual n name)

end Resolution

end FilterQuery
