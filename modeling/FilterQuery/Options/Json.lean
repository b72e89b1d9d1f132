import FilterQuery.Options
import FilterQuery.Json.Tree
set_option autoImplicit false

/-!
Options as JSON. On reading every key may be absent, unknown keys do not matter, and words have to
be spelled exactly as they are written.
-/

namespace FilterQuery

def Naming.jsonWord : Naming → Text
  | asIs => "as-is".toList
  | snakeCase => "snake-case".toList

def Resolution.jsonWord : Resolution → Text
  | strict => "strict".toList
  | flexible => "flexible".toList

def Validation.jsonWord : Validation → Text
  | off => "off".toList
  | strict => "strict".toList
  | repair => "repair".toList

def CacheOptions.toJson (c : CacheOptions) : Json :=
  .object [("capacity".toList, .int c.capacity), ("ttl-ms".toList, .int c.ttl),
    ("reap-interval-ms".toList, .int c.reapInterval)]

def Options.toJson (o : Options) : Json :=
  .object [("naming-strategy".toList, .text o.naming.jsonWord),
    ("identifier-resolution".toList, .text o.resolution.jsonWord),
    ("validation".toList, .text o.validation.jsonWord),
    ("cache".toList, match o.cache with
      | some c => c.toJson
      | none => .null),
    ("regex-operator".toList, match o.regexOperator with
      | some t => .text t
      | none => .null)]

namespace OptionsReader

def word? {α : Type} (write : α → Text) (choices : List α) (x : Json) : Option α :=
  match TreeReader.variant? x with
  | some (k, .null) => choices.find? fun a => write a == k
  | _ => none

/-- The parts of a record by name, or by place in a list that may stop early. -/
def parts? (names : List String) : Json → Option (List (Option Json))
  | .array xs =>
    if xs.length ≤ names.length then
      some (xs.map some ++ List.replicate (names.length - xs.length) none)
    else none
  | .object fields => some (names.map fun n => fields.lookup n.toList)
  | _ => none

/-- A part that is absent has its default; one that is there has to be readable. -/
def orDefault {α : Type} (fallback : α) (read : Json → Option α) : Option Json → Option α
  | none => some fallback
  | some x => read x

def optional {α : Type} (read : Json → Option α) (x : Json) : Option (Option α) :=
  if x.isNull then some none else (read x).map some

def cache? (x : Json) : Option CacheOptions := do
  let d := CacheOptions.default
  match ← parts? ["capacity", "ttl-ms", "reap-interval-ms"] x with
  | [capacity, ttl, reap] =>
    some ⟨← orDefault d.capacity TreeReader.natural? capacity,
      ← orDefault d.ttl TreeReader.natural? ttl,
      ← orDefault d.reapInterval TreeReader.natural? reap⟩
  | _ => none

def options? (x : Json) : Option Options := do
  let d := Options.default
  match ← parts? ["naming-strategy", "identifier-resolution", "validation", "cache",
    "regex-operator"] x with
  | [naming, resolution, validation, cache, regex] =>
    some ⟨← orDefault d.naming (word? Naming.jsonWord [.asIs, .snakeCase]) naming,
      ← orDefault d.resolution (word? Resolution.jsonWord [.strict, .flexible]) resolution,
      ← orDefault d.validation (word? Validation.jsonWord [.off, .strict, .repair]) validation,
      ← orDefault d.cache (optional cache?) cache,
      ← orDefault d.regexOperator (optional Json.text?) regex⟩
  | _ => none

end OptionsReader

end FilterQuery
