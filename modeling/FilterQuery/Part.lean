import FilterQuery.Text
set_option autoImplicit false

/-!
The parts a rendered query is made of. Their tags are read in any letter case, and `_` may stand
for the space of a tag of two words.
-/

namespace FilterQuery

inductive Part where
  | columns
  | source
  | joins
  | filter
  | groups
  | order
  | limit
  | offset
  | find
  | aggregate
  | unknown (tag : Text)
  deriving DecidableEq, Repr

namespace Part

def tag : Part → Text
  | columns => "SELECT".toList
  | source => "FROM".toList
  | joins => "JOIN".toList
  | filter => "WHERE".toList
  | groups => "GROUP BY".toList
  | order => "ORDER BY".toList
  | limit => "LIMIT".toList
  | offset => "OFFSET".toList
  | find => "FIND".toList
  | aggregate => "AGGREGATE".toList
  | unknown t => t

def statement : List Part := [columns, source, joins, filter, groups, order, limit, offset]

def known : List Part := statement ++ [find, aggregate]

def ofTag (t : Text) : Part :=
  let words := Text.words (fun c => Text.isBlank c || c = '_') t
  let tag := Text.join [' '] (words.map Text.upper)
  (known.find? fun p => p.tag == tag).getD (unknown (Text.trim t))

def readList (t : Text) : List Part :=
  (((t.splitOn ',').map Text.trim).filter (· ≠ [])).map ofTag

end Part

end FilterQuery
