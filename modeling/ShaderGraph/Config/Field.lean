import ShaderGraph.Config

/-!
# The fields of a configuration file

A configuration file assigns values to five fields. What a field holds, and what its parts hold, is
a `Slot`; the slots have names by which messages call them.
-/

namespace ShaderGraph

/-- A field of a configuration file. -/
inductive ConfigField where
  | featureLevel
  | virtualTexturing
  | staticSwitches
  | parameters
  | logLevel
deriving DecidableEq

namespace ConfigField

/-- The fields. -/
def all : List ConfigField := [featureLevel, virtualTexturing, staticSwitches, parameters, logLevel]

/-- The name of a field. -/
def name : ConfigField → String
  | featureLevel => "feature_level"
  | virtualTexturing => "virtual_texturing"
  | staticSwitches => "static_switches"
  | parameters => "parameters"
  | logLevel => "log_level"

/-- The field with a name. -/
def ofName? (name : String) : Option ConfigField := all.find? fun f => f.name == name

/-- The field with a name in any case. -/
def ofNameInAnyCase? (name : String) : Option ConfigField :=
  (ofName? name).or (ofName? (Text.lower name))

end ConfigField

/-- A place for values. -/
inductive Slot where
  | text
  | flag
  | number
  /-- A list of numbers. -/
  | numbers
  /-- Flags by name. -/
  | switches
  /-- Lists of numbers by name. -/
  | parameters
deriving DecidableEq

/-- What messages call the values of a slot. -/
def Slot.typeName : Slot → String
  | text => "string"
  | flag => "bool"
  | number => "float32"
  | numbers => "[]float32"
  | switches => "map[string]bool"
  | parameters => "map[string][]float32"

/-- What a field holds. -/
def ConfigField.slot : ConfigField → Slot
  | featureLevel => .text
  | virtualTexturing => .flag
  | staticSwitches => .switches
  | parameters => .parameters
  | logLevel => .text

/-- The entries with the one of a name changed, or added at the end. -/
def putEntry {α : Type} (name : String) (a : α) (entries : List (String × α)) : List (String × α) :=
  if entries.any (·.1 == name) then
    entries.map fun entry => if entry.1 == name then (name, a) else entry
  else entries ++ [(name, a)]

namespace Config

/-- The configuration with a text in a field that holds one. -/
def putText (c : Config) (field : ConfigField) (content : String) : Config :=
  match field with
  | .featureLevel => { c with featureLevel := content }
  | .logLevel => { c with logLevel := content }
  | _ => c

/-- The configuration with a static switch. -/
def putSwitch (c : Config) (name : String) (value : Bool) : Config :=
  { c with staticSwitches := putEntry name value c.staticSwitches }

/-- The configuration with a parameter. -/
def putParameter (c : Config) (name : String) (components : List Single) : Config :=
  { c with parameters := putEntry name components c.parameters }

end Config

end ShaderGraph
