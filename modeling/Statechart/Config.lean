/-
# Configuration

What the compiler, the actors and the command line share: where relative addresses lead, how long a
response may take, and what happens to calls without a retry policy of their own.

* `Config.ofEntries`: the configuration of a mapping, missing settings taking their defaults;
* `Config.ofEnvironment`: the configuration of environment variables;
* `ofEntries_valid`: what every configuration satisfies.
-/
import Statechart.Quantity
import Statechart.Text.Case
import Statechart.Value.Compare

namespace Statechart

/-- What can be wrong with a configuration. -/
inductive ConfigError where
  | unknownKeys (names : List String)
  | timeoutNotPositive
  | retriesNegative
  | backoffNegative
  | multiplierNotPositive
  | badLevel (level : String)
  | notABoolean (name raw : String)
  | notANumber (name raw : String)
  /-- A setting of a kind that admits no check. -/
  | badKind (e : DataFault)
deriving Repr, Inhabited

def ConfigError.message : ConfigError → String
  | unknownKeys names => "Unknown configuration keys: " ++ ", ".intercalate names
  | timeoutNotPositive => "http_timeout_ms must be positive"
  | retriesNegative => "default_retry_max must be non-negative"
  | backoffNegative => "default_backoff_ms must be non-negative"
  | multiplierNotPositive => "default_backoff_multiplier must be positive"
  | badLevel level => "Invalid log_level: " ++ level
  | notABoolean name raw => name ++ " must be a boolean, got '" ++ raw ++ "'"
  | notANumber name raw => name ++ " must be a number, got '" ++ raw ++ "'"
  | badKind e => e.message

/-- The settings shared by the compiler, the actors and the command line. -/
structure Config where
  httpBaseUrl : Option String := none
  httpTimeoutMs : Quantity := .int 10000
  /-- Applied to calls that declare no retry policy. -/
  defaultRetryMax : Quantity := .int 0
  defaultBackoffMs : Quantity := .int 1000
  defaultBackoffMultiplier : Quantity := .float 2.0
  logLevel : String := "WARNING"
  strictTemplates : Value := .bool false
deriving Inhabited, Repr

namespace Config

/-- The names of the settings, in order. -/
def names : List String :=
  ["http_base_url", "http_timeout_ms", "default_retry_max", "default_backoff_ms",
    "default_backoff_multiplier", "log_level", "strict_templates"]

def levels : List String := ["DEBUG", "INFO", "WARNING", "ERROR", "CRITICAL"]

/-- Whether every number of a configuration lies in its range. -/
def isValid (c : Config) : Bool :=
  !c.httpTimeoutMs.isAtMostZero && !c.defaultRetryMax.isNegative && !c.defaultBackoffMs.isNegative &&
    !c.defaultBackoffMultiplier.isAtMostZero

/-- A setting that is compared with zero. -/
def quantity (operator : String) (v : Value) : Except ConfigError Quantity :=
  match Quantity.ofValue? v with
  | some q => .ok q
  | none => .error (.badKind (.unordered operator v.kind .int))

/-- The level of a name in any case. -/
def level (v : Value) : Except ConfigError String :=
  match v with
  | .text s => if levels.contains (toUpperCase s) then .ok (toUpperCase s) else .error (.badLevel s)
  | v => .error (.badKind (.noAttribute v.kind "upper"))

/-- A base address without slashes at its end; an empty one is none. -/
def baseUrl (v : Value) : Except ConfigError (Option String) :=
  match v with
  | .null => .ok none
  | .text s =>
    let cs := (s.toList.reverse.dropWhile (· = '/')).reverse
    .ok (if cs.isEmpty then none else some (String.ofList cs))
  | v => .error (.badKind (.noAttribute v.kind "rstrip"))

/-- The configuration of a mapping. -/
def ofEntries (es : Entries) : Except ConfigError Config := do
  let unknown := (Entries.keys es).map Key.display |>.filter (!names.contains ·)
  unless unknown.isEmpty do .error (.unknownKeys (unknown.mergeSort (· ≤ ·)))
  let get := fun (name : String) (default : Value) => (Entries.lookup name es).getD default
  let d : Config := {}
  let timeout ← quantity "<=" (get "http_timeout_ms" d.httpTimeoutMs.toValue)
  if timeout.isAtMostZero then .error .timeoutNotPositive
  let retries ← quantity "<" (get "default_retry_max" d.defaultRetryMax.toValue)
  if retries.isNegative then .error .retriesNegative
  let backoff ← quantity "<" (get "default_backoff_ms" d.defaultBackoffMs.toValue)
  if backoff.isNegative then .error .backoffNegative
  let multiplier ←
    quantity "<=" (get "default_backoff_multiplier" d.defaultBackoffMultiplier.toValue)
  if multiplier.isAtMostZero then .error .multiplierNotPositive
  let level ← level (get "log_level" (.text d.logLevel))
  let base ← baseUrl (get "http_base_url" .null)
  return {
    httpBaseUrl := base
    httpTimeoutMs := timeout
    defaultRetryMax := retries
    defaultBackoffMs := backoff
    defaultBackoffMultiplier := multiplier
    logLevel := level
    strictTemplates := get "strict_templates" d.strictTemplates }

/-! ## Environment variables -/

/-- The usual beginning of the variables' names. -/
def environmentPrefix : String := "XFLOWS_"

/-- The truth value a text stands for. -/
def parseBool (name raw : String) : Except ConfigError Value :=
  let word := toLowerCase (strip raw)
  if ["true", "1", "yes", "on"].contains word then .ok (.bool true)
  else if ["false", "0", "no", "off"].contains word then .ok (.bool false)
  else .error (.notABoolean name raw)

def parseInt (name raw : String) : Except ConfigError Value :=
  match Numeral.int? raw with
  | some n => .ok (.int n)
  | none => .error (.notANumber name raw)

def parseFloat (name raw : String) : Except ConfigError Value :=
  match Numeral.float? raw with
  | some x => .ok (.float x)
  | none => .error (.notANumber name raw)

/-- The settings that variables can give, each with its variable and its reader. -/
def environmentFields : List (String × String × (String → String → Except ConfigError Value)) :=
  [("http_base_url", "HTTP_BASE_URL", fun _ raw => .ok (if raw.isEmpty then .null else .text raw)),
    ("http_timeout_ms", "HTTP_TIMEOUT_MS", parseInt),
    ("default_retry_max", "DEFAULT_RETRY_MAX", parseInt),
    ("default_backoff_ms", "DEFAULT_BACKOFF_MS", parseInt),
    ("default_backoff_multiplier", "DEFAULT_BACKOFF_MULTIPLIER", parseFloat),
    ("log_level", "LOG_LEVEL", fun _ raw => .ok (.text raw)),
    ("strict_templates", "STRICT_TEMPLATES", parseBool)]

/-- The configuration of environment variables whose names begin alike. -/
def ofEnvironment (env : String → Option String) (start : String := environmentPrefix) :
    Except ConfigError Config := do
  let settings ← environmentFields.mapM fun (setting, suffix, read) =>
    match env (start ++ suffix) with
    | some raw => do return some (Key.text setting, ← read (start ++ suffix) raw)
    | none => return none
  ofEntries (settings.reduceOption)

/-- A configuration as a mapping. -/
def toValue (c : Config) : Value :=
  .record [("http_base_url", .ofText? c.httpBaseUrl), ("http_timeout_ms", c.httpTimeoutMs.toValue),
    ("default_retry_max", c.defaultRetryMax.toValue),
    ("default_backoff_ms", c.defaultBackoffMs.toValue),
    ("default_backoff_multiplier", c.defaultBackoffMultiplier.toValue),
    ("log_level", .text c.logLevel), ("strict_templates", c.strictTemplates)]

/-- Every configuration of a mapping has its numbers in range. -/
theorem ofEntries_valid {es : Entries} {c : Config} (h : ofEntries es = .ok c) : c.isValid := by
  unfold ofEntries at h
  simp only [bind, Except.bind, pure, Except.pure] at h
  repeat' split at h
  all_goals simp only [Except.ok.injEq, reduceCtorEq] at h
  subst h
  simp_all [isValid]

end Config

end Statechart
