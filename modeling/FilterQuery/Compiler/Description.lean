import FilterQuery.Compiler
import FilterQuery.Text.Escaped
set_option autoImplicit false

/-!
A compiler as one line of text: its options, and the names of its adapters and plugins.
-/

namespace FilterQuery

namespace Description

def record (name : String) (fields : List (String × Text)) : Text :=
  name.toList ++ " \x7b ".toList ++
    Text.join ", ".toList (fields.map fun (k, t) => k.toList ++ ": ".toList ++ t) ++
    " \x7d".toList

def optional {α : Type} (write : α → Text) : Option α → Text
  | none => "None".toList
  | some a => "Some(".toList ++ write a ++ [')']

def list (ts : List Text) : Text :=
  '[' :: Text.join ", ".toList (ts.map Escaped.write) ++ [']']

def naming : Naming → Text
  | .asIs => "AsIs".toList
  | .snakeCase => "SnakeCase".toList

def resolution : Resolution → Text
  | .strict => "Strict".toList
  | .flexible => "Flexible".toList

def validation : Validation → Text
  | .off => "Off".toList
  | .strict => "Strict".toList
  | .repair => "Repair".toList

def cacheOptions (c : CacheOptions) : Text :=
  record "CacheOptions" [("capacity", Text.ofNat c.capacity), ("ttl_ms", Text.ofNat c.ttl),
    ("reap_interval_ms", Text.ofNat c.reapInterval)]

def options (o : Options) : Text :=
  record "Options" [("naming_strategy", naming o.naming),
    ("identifier_resolution", resolution o.resolution), ("validation", validation o.validation),
    ("cache", optional cacheOptions o.cache),
    ("regex_operator", optional Escaped.write o.regexOperator)]

end Description

def Compiler.describe (c : Compiler) : Text :=
  Description.record "Compiler" [("options", Description.options c.options),
    ("adapters", Description.list c.adapterNames), ("plugins", Description.list c.plugins.names)]

end FilterQuery
