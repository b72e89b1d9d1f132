import FilterQuery.Text
set_option autoImplicit false

/-!
The regex engine that comes with a program. Reading a text asks it for nothing but whether a
pattern is one of its regexes, and nothing here depends on how it decides that.
-/

namespace FilterQuery.Regex

/-- A regex engine, as the reader of a text knows it: some patterns it accepts, others not. -/
class Engine where
  accepts : Text → Bool

namespace Engine

/-- An engine for patterns of letters and digits, which stand for themselves in every regex. -/
abbrev words : Engine where
  accepts p := p.all Char.isAlphanum

end Engine

end FilterQuery.Regex
