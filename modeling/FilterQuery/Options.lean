import FilterQuery.Naming
import FilterQuery.Json
set_option autoImplicit false

/-!
The settings of a compiler, the words that name them on a command line or in the environment, and
their JSON form.
-/

namespace FilterQuery

/-- What happens to filter text before it is read: nothing, refusal of faulty text, or repair. -/
inductive Validation where
  | off
  | strict
  | repair
  deriving DecidableEq, Repr

structure CacheOptions where
  capacity : Nat
  ttl : Nat
  reapInterval : Nat
  deriving DecidableEq, Repr

def CacheOptions.default : CacheOptions := ⟨1024, 300000, 60000⟩

structure Options where
  naming : Naming
  resolution : Resolution
  validation : Validation
  cache : Option CacheOptions
  regexOperator : Option Text
  deriving DecidableEq, Repr

def Options.default : Options := ⟨.snakeCase, .flexible, .strict, none, none⟩

inductive UnknownSetting where
  | naming (name : Text)
  | validation (name : Text)
  | resolution (name : Text)
  deriving DecidableEq, Repr

namespace UnknownSetting

def quoted (kind : String) (name : Text) (advice : String) : Text :=
  kind.toList ++ " \x60".toList ++ name ++ "\x60 does not exist. ".toList ++ advice.toList

def message : UnknownSetting → Text
  | naming n => quoted "Naming strategy" n "Use \x60as-is\x60 or \x60snake-case\x60."
  | validation n => quoted "Validation mode" n "Use \x60off\x60, \x60strict\x60 or \x60repair\x60."
  | resolution n => quoted "Identifier resolution" n "Use \x60strict\x60 or \x60flexible\x60."

end UnknownSetting

def settingOfWord? {α : Type} (table : List (String × α)) (word : Text) : Option α :=
  (table.find? fun (w, _) => w.toList == word).map Prod.snd

def keyword (t : Text) : Text := Text.lower (Text.trim t)

def Naming.words : List (String × Naming) :=
  [("as-is", .asIs), ("asis", .asIs), ("none", .asIs), ("snake-case", .snakeCase),
    ("snake", .snakeCase)]

def Naming.read (t : Text) : Except UnknownSetting Naming :=
  match settingOfWord? words (Text.replace '_' ['-'] (keyword t)) with
  | some n => .ok n
  | none => .error (.naming t)

def Validation.words : List (String × Validation) :=
  [("off", .off), ("none", .off), ("lenient", .off), ("strict", .strict), ("repair", .repair)]

def Validation.read (t : Text) : Except UnknownSetting Validation :=
  match settingOfWord? words (keyword t) with
  | some v => .ok v
  | none => .error (.validation t)

def Resolution.words : List (String × Resolution) :=
  [("strict", .strict), ("flexible", .flexible), ("flex", .flexible)]

def Resolution.read (t : Text) : Except UnknownSetting Resolution :=
  match settingOfWord? words (keyword t) with
  | some r => .ok r
  | none => .error (.resolution t)

def readOr {α : Type} (read : Text → Except UnknownSetting α) (fallback : α) :
    Option Text → α
  | some t => (read t).toOption.getD fallback
  | none => fallback

abbrev Environment := List (Text × Text)

/-- The default options changed by environment variables. Words that name no setting and blank
regex operators do not count. -/
def Options.ofEnvironment (env : Environment) : Options :=
  let get := fun (name : String) => env.lookup name.toList
  ⟨readOr Naming.read .snakeCase (get "QFILTER_NAMING"),
    readOr Resolution.read .flexible (get "QFILTER_IDENTIFIER_RESOLUTION"),
    readOr Validation.read .strict (get "QFILTER_VALIDATION"),
    none,
    (get "QFILTER_REGEX_OPERATOR").filter fun t => Text.trim t ≠ []⟩

end FilterQuery
