import ShaderGraph.Material
import ShaderGraph.Text.Case
import ShaderGraph.Uniform.Basic

/-!
# Configuration

The choices of a compilation as they are written down: names of levels, and lists of components for
parameters. Nothing in a configuration is checked before it is used; `Config.errors` tells
beforehand what using it would find wrong.
-/

namespace ShaderGraph

/-! ### Names -/

/-- The feature level with a name in any case, `sm5` for no name. -/
def FeatureLevel.ofName? (name : String) : Option FeatureLevel :=
  if name = "" then some .sm5 else FeatureLevel.all.find? fun l => Text.equalFold name l.name

/-- Why a text names no log level. -/
inductive LogLevelError where
  | unknownName
  | offsetForm (text : String)
  | offsetRange (text : String)
deriving DecidableEq

/-- The wording of the reason. -/
def LogLevelError.message : LogLevelError → String
  | unknownName => "unknown name"
  | offsetForm text => "strconv.Atoi: parsing " ++ Text.quote text ++ ": invalid syntax"
  | offsetRange text => "strconv.Atoi: parsing " ++ Text.quote text ++ ": value out of range"

namespace LogLevel

/-- Reads decimal digits after the number `n`. The first character decides that is no digit or
that takes the number beyond a 64 bit word. -/
def digits (text : String) : Nat → List Char → Except LogLevelError Nat
  | n, [] => .ok n
  | n, c :: rest =>
    let next := 10 * n + (c.toNat - '0'.toNat)
    if !c.isDigit then .error (.offsetForm text)
    else if UInt64.size ≤ next then .error (.offsetRange text)
    else digits text next rest

/-- The distance to a named level: a sign and at least one digit, within a signed 64 bit word. -/
def offset? (text : String) : Except LogLevelError Int :=
  match text.toList with
  | sign :: first :: rest => do
    let magnitude ← digits text 0 (first :: rest)
    let value : Int := if sign = '-' then -(magnitude : Int) else magnitude
    if value < Int64.minValue.toInt || Int64.maxValue.toInt < value then
      .error (.offsetRange text)
    else .ok value
  | _ => .error (.offsetForm text)

/-- The level with a name in any case. -/
def named? (name : String) : Option LogLevel :=
  [("DEBUG", debug), ("INFO", info), ("WARN", warn), ("ERROR", error)].lookup (Text.upper name)

/-- The level that a text stands for: a name, and a distance to it if there is a sign. -/
def parse (text : String) : Except LogLevelError LogLevel := do
  let isSign (c : Char) : Bool := c = '+' || c = '-'
  let name := String.ofList (text.toList.takeWhile fun c => !isSign c)
  let rest := String.ofList (text.toList.dropWhile fun c => !isSign c)
  let offset ← if rest = "" then .ok 0 else offset? rest
  match named? name with
  | some level => .ok (Int64.ofInt (level + offset)).toInt
  | none => .error .unknownName

end LogLevel

/-! ### Configurations -/

/-- A configuration. -/
structure Config where
  /-- The name of the feature level. -/
  featureLevel : String := ""
  virtualTexturing : Bool := false
  /-- Values of static switches, by name. -/
  staticSwitches : List (String × Bool) := []
  /-- Values of parameters, by name: one component for all, or up to four. -/
  parameters : List (String × List Single) := []
  /-- The name of the lowest level that is logged; nothing is for no name. -/
  logLevel : String := ""

/-- What is wrong with a configuration. -/
inductive ConfigError where
  | unknownFeatureLevel (name : String)
  | logLevel (text : String) (reason : LogLevelError)
  | componentCount (parameter : String) (count : Nat)
deriving DecidableEq

/-- The wording of what is wrong. -/
def ConfigError.message : ConfigError → String
  | unknownFeatureLevel name => "unknown feature level " ++ Text.quote name
  | logLevel text reason =>
    "invalid log level: slog: level string " ++ Text.quote text ++ ": " ++ reason.message
  | componentCount parameter count =>
    "parameter " ++ Text.quote parameter ++ s!" has {count} components, want 1 to 4"

namespace Config

/-- The feature level of a configuration. -/
def level (c : Config) : Except ConfigError FeatureLevel :=
  match FeatureLevel.ofName? c.featureLevel with
  | some level => .ok level
  | none => .error (.unknownFeatureLevel c.featureLevel)

/-- The lowest level that is logged, if anything is, where `parse` reads the names of levels. -/
def thresholdBy (parse : String → Except LogLevelError LogLevel) (c : Config) :
    Except ConfigError (Option LogLevel) :=
  if c.logLevel = "" then .ok none
  else
    match parse c.logLevel with
    | .ok level => .ok (some level)
    | .error reason => .error (.logLevel c.logLevel reason)

/-- The lowest level that is logged, if anything is. -/
def threshold : Config → Except ConfigError (Option LogLevel) := thresholdBy LogLevel.parse

/-- The options of a configuration, where `parse` reads the names of levels. -/
def optionsBy (parse : String → Except LogLevelError LogLevel) (c : Config) :
    Except ConfigError Options := do
  let featureLevel ← c.level
  let logLevel ← c.thresholdBy parse
  return { featureLevel, virtualTexturing := c.virtualTexturing,
           staticSwitches := c.staticSwitches, logLevel }

/-- The options of a configuration. -/
def options : Config → Except ConfigError Options := optionsBy LogLevel.parse

/-- The value of a parameter: one component stands for all four, and missing ones are zero. -/
def parameterValue (name : String) (components : List Single) : Except ConfigError Value :=
  match components with
  | [] => .error (.componentCount name 0)
  | [x] => .ok (Value.replicate x)
  | _ =>
    if components.length ≤ 4 then .ok (Value.ofList components)
    else .error (.componentCount name components.length)

/-- The values of the parameters. They are looked at from the last to the first, so of several that
are wrong the last is reported. -/
def parameterValues (c : Config) : Except ConfigError Overrides :=
  c.parameters.foldrM
    (fun (name, components) values => return (name, ← parameterValue name components) :: values) []

/-- What is wrong with a result. -/
def errorOf {α : Type} : Except ConfigError α → List ConfigError
  | .ok _ => []
  | .error e => [e]

/-- Everything that is wrong with a configuration, where `parse` reads the names of levels. -/
def errorsBy (parse : String → Except LogLevelError LogLevel) (c : Config) : List ConfigError :=
  errorOf c.level ++ errorOf (c.thresholdBy parse) ++
    c.parameters.flatMap fun (name, components) =>
      if components.length = 0 || 4 < components.length then
        [.componentCount name components.length]
      else []

/-- Everything that is wrong with a configuration. -/
def errors : Config → List ConfigError := errorsBy LogLevel.parse

end Config

end ShaderGraph
