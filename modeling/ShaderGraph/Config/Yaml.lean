import ShaderGraph.Config.Failure
import ShaderGraph.Yaml.Layers
import ShaderGraph.Yaml.Lexer
import ShaderGraph.Yaml.Meaning

/-!
# Configurations in YAML

The first document of a text is applied to a configuration. A value of a wrong type does not stop
the reading, but in the end the document is malformed. Nothing, where something belongs, leaves it
as it is.
-/

namespace ShaderGraph

namespace Config

/-- The reading of a document. The state tells whether a value was wrong. -/
abbrev YamlM := StateT Bool (Except ReadError)

/-- Goes on without a wrong value. -/
def wrong {α : Type} : YamlM (Option α) := do
  StateT.set true
  return none

/-- The meaning of a scalar. -/
def yamlMeaning (tag : Option String) (plain : Bool) (content : String) : YamlM Yaml.Meaning :=
  match Yaml.Meaning.ofScalar? tag plain content with
  | some meaning => pure meaning
  | none => throw .malformed

/-! ### Values -/

/-- The text that a node is, if it is one. Every scalar is a text as it is written. -/
def yamlText : Yaml.Node → YamlM (Option String)
  | .scalar tag plain content => do
    match ← yamlMeaning tag plain content with
    | .nothing => return none
    | .text content => return some content
    | _ => return some content
  | .reference _ (some target) => yamlText target
  | .reference _ none => throw .malformed
  | _ => wrong

/-- The words for flags beside those of the language. -/
def flagWord? (word : String) : Option Bool :=
  if ["y", "Y", "yes", "Yes", "YES", "on", "On", "ON"].contains word then some true
  else if ["n", "N", "no", "No", "NO", "off", "Off", "OFF"].contains word then some false
  else none

/-- The flag that a node is, if it is one. -/
def yamlFlag : Yaml.Node → YamlM (Option Bool)
  | .scalar tag plain content => do
    match ← yamlMeaning tag plain content with
    | .nothing => return none
    | .flag b => return some b
    | .text word =>
      match flagWord? word with
      | some b => return some b
      | none => wrong
    | _ => wrong
  | .reference _ (some target) => yamlFlag target
  | .reference _ none => throw .malformed
  | _ => wrong

/-- The number that a node is, if it is one. -/
def yamlNumber : Yaml.Node → YamlM (Option Single)
  | .scalar tag plain content => do
    match ← yamlMeaning tag plain content with
    | .nothing => return none
    | .whole i => return some (Double.ofInt i).toSingle
    | .double x => return some x.toSingle
    | _ => wrong
  | .reference _ (some target) => yamlNumber target
  | .reference _ none => throw .malformed
  | _ => wrong

/-- The numbers that a node lists; nothing lists none, and nothing in a list is left out. -/
def yamlNumbers : Yaml.Node → YamlM (Option (List Single))
  | .scalar tag plain content => do
    match ← yamlMeaning tag plain content with
    | .nothing => return some []
    | _ => wrong
  | .sequence items => return some ((← items.mapM yamlNumber).filterMap id)
  | .reference _ (some target) => yamlNumbers target
  | .reference _ none => throw .malformed
  | _ => wrong

/-! ### Mappings -/

/-- The names of entries that are texts by their meaning too, which keep entries of other mappings
out. -/
def takenNames (es : List (Yaml.Node × Yaml.Node)) : List String :=
  es.filterMap fun (key, _) =>
    match key with
    | .scalar tag plain content | .reference _ (some (.scalar tag plain content)) =>
      match Yaml.Meaning.ofScalar? tag plain content with
      | some (.text name) => some name
      | _ => none
    | _ => none

/-- Applies the entries of a layer to a value. In the layers after the first, names that are taken
are left out, and the others are taken then. -/
def applyEntries {α : Type} (apply : α → String → Yaml.Node → YamlM α) (first : Bool) :
    List (Yaml.Node × Yaml.Node) → List String → α → YamlM (List String × α)
  | [], taken, a => return (taken, a)
  | (key, value) :: rest, taken, a => do
    match ← yamlText key with
    | none => applyEntries apply first rest taken a
    | some name =>
      if first then applyEntries apply first rest taken (← apply a name value)
      else if taken.contains name then applyEntries apply first rest taken a
      else applyEntries apply first rest (name :: taken) (← apply a name value)

/-- Applies the layers after the first. -/
def applyLayers {α : Type} (apply : α → String → Yaml.Node → YamlM α) :
    List Yaml.Layer → List String → α → YamlM α
  | [], _, a => return a
  | .unfit :: _, _, _ => throw .malformed
  | .repeated :: rest, taken, a => do
    StateT.set true
    applyLayers apply rest taken a
  | .entries es :: rest, taken, a => do
    let (taken, a) ← applyEntries apply false es taken a
    applyLayers apply rest taken a

/-- Applies the entries of a mapping to a value: those of its own, and those that it takes over. The
reading breaks off if it takes over any while a key of its own is a collection. -/
def applyMapping {α : Type} (own other : α → String → Yaml.Node → YamlM α) (node : Yaml.Node)
    (a : α) : YamlM α := do
  match node.layers with
  | .entries es :: rest =>
    let (_, a) ← applyEntries own true es [] a
    if !rest.isEmpty && es.any (·.1.isCollection) then throw (.broken .key)
    applyLayers other rest (takenNames es) a
  | _ =>
    StateT.set true
    return a

/-- The entries by name that a node lists; nothing lists none. Nothing as a value is the given
one; it does not replace an entry from another mapping. -/
def yamlEntries {α : Type} (read : Yaml.Node → YamlM (Option α)) (absent : α) :
    Yaml.Node → YamlM (Option (List (String × α)))
  | .scalar tag plain content => do
    match ← yamlMeaning tag plain content with
    | .nothing => return some []
    | _ => wrong
  | .mapping es =>
    let put (replace : Bool) (entries : List (String × α)) (name : String) (value : Yaml.Node) :
        YamlM (List (String × α)) := do
      match ← read value with
      | some a => return putEntry name a entries
      | none =>
        if value.isNothing && (replace || (entries.lookup name).isNone) then
          return putEntry name absent entries
        else return entries
    return some (← applyMapping (put true) (put false) (.mapping es) [])
  | .reference _ (some target) => yamlEntries read absent target
  | .reference _ none => throw .malformed
  | _ => wrong

/-! ### Fields -/

/-- Assigns a field. -/
def assignYaml (c : Config) (field : ConfigField) (value : Yaml.Node) : YamlM Config := do
  match field with
  | .featureLevel | .logLevel => return (← yamlText value).elim c (c.putText field)
  | .virtualTexturing =>
    return (← yamlFlag value).elim c fun b => { c with virtualTexturing := b }
  | .staticSwitches =>
    return (← yamlEntries yamlFlag false value).elim c fun es => { c with staticSwitches := es }
  | .parameters =>
    return (← yamlEntries yamlNumbers [] value).elim c fun es => { c with parameters := es }

/-- Assigns the field with a name. A field is assigned once. -/
def assignNamed (state : Config × List ConfigField) (name : String) (value : Yaml.Node) :
    YamlM (Config × List ConfigField) := do
  let (c, done) := state
  match ConfigField.ofName? name with
  | some field =>
    if done.contains field then
      StateT.set true
      return state
    else return (← c.assignYaml field value, field :: done)
  | none =>
    StateT.set true
    return state

/-- The configuration that a node stands for. -/
def ofNode : Yaml.Node → YamlM Config
  | .scalar tag plain content => do
    match ← yamlMeaning tag plain content with
    | .nothing => return {}
    | _ => return (← wrong).getD {}
  | .mapping es =>
    return (← applyMapping assignNamed assignNamed (.mapping es) ({}, [])).1
  | _ => return (← wrong).getD {}

/-! ### Documents -/

/-- The configuration that a document in YAML stands for. Without a document all is left as it
is. -/
def ofYaml (text : String) : Except ReadError Config :=
  match (Yaml.tokens? text).bind Yaml.document? with
  | none => .error .malformed
  | some none => .ok {}
  | some (some node) => do
    let (config, wrong) ← (ofNode node).run false
    if wrong then .error .malformed else .ok config

end Config

end ShaderGraph
