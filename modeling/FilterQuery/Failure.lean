import FilterQuery.Problem
set_option autoImplicit false

/-!
Why a compiler does not do what it is asked: the text is not valid or cannot be repaired, a plugin
stops the work, or there is no adapter that can render the query.
-/

namespace FilterQuery

/-- The hook in which a plugin fails. -/
inductive Stage where
  | beforeParse
  | afterParse
  | beforeQuery
  | afterQuery
  deriving DecidableEq, Repr

def Stage.name : Stage → Text
  | beforeParse => "before_parse".toList
  | afterParse => "after_parse".toList
  | beforeQuery => "before_query".toList
  | afterQuery => "after_query".toList

inductive Failure where
  | parse (p : Problem)
  | repair (f : RepairFailure)
  | plugin (name : Text) (stage : Stage) (cause : Text)
  | mismatch (message : Text)
  deriving DecidableEq, Repr

namespace Failure

def message : Failure → Text
  | parse p => p.write
  | repair f => f.write
  | plugin n s c =>
    "plugin \x60".toList ++ n ++ "\x60 failed in ".toList ++ s.name ++ ": ".toList ++ c
  | mismatch t => t

def noTable : Failure := .mismatch "A table name is required to render SQL.".toList

def noCollection : Failure :=
  .mismatch "A collection name is required to render a document query.".toList

def unknownAdapter (name : Text) : Failure :=
  .mismatch ("No adapter is registered under the name \x60".toList ++ name ++ "\x60.".toList)

end Failure

end FilterQuery
