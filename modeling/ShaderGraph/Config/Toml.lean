import ShaderGraph.Config.Failure
import ShaderGraph.Toml.Keys
import ShaderGraph.Toml.Moment
import ShaderGraph.Toml.Number
import ShaderGraph.Toml.Parser

/-!
# Configurations in TOML

The expressions of a document are applied to a configuration one by one. Names of fields are read in
any case. A name without a field does not stop the reading, but in the end the document is
malformed.
-/

namespace ShaderGraph

namespace Config

/-! ### Values -/

/-- The failure of a value that does not belong into a slot. -/
def mismatch (slot : Slot) : Toml.Value → ReadError
  | .moment kind written =>
    if Toml.isMoment kind written then .broken (.moment kind slot) else .malformed
  | _ => .malformed

/-- The text that a value is. -/
def tomlText : Toml.Value → Except ReadError String
  | .text content => .ok content
  | value => .error (mismatch .text value)

/-- The flag that a value is. -/
def tomlFlag : Toml.Value → Except ReadError Bool
  | .boolean content => .ok content
  | value => .error (mismatch .flag value)

/-- The number that a value is. It may be too small for single precision, but not too large. -/
def tomlNumber : Toml.Value → Except ReadError Single
  | .number written =>
    if written = ['+'] || written = ['-'] then .error (.broken .sign)
    else
      match Toml.double? written with
      | some x => if x.exceedsSingle then .error .malformed else .ok x.toSingle
      | none => .error .malformed
  | value => .error (mismatch .number value)

/-- The numbers that a value lists. -/
def tomlNumbers : Toml.Value → Except ReadError (List Single)
  | .array items => items.mapM tomlNumber
  | value => .error (mismatch .numbers value)

/-! ### Assignments -/

/-- Assigns a static switch. A switch has no parts. -/
def assignSwitch (c : Config) (key : Toml.Key) (value : Toml.Value) : Except ReadError Config :=
  match key with
  | [name] => return c.putSwitch name (← tomlFlag value)
  | _ => .error .malformed

/-- Assigns a parameter. A parameter has no parts with names. -/
def assignParameter (c : Config) (key : Toml.Key) (value : Toml.Value) : Except ReadError Config :=
  match key with
  | [name] => return c.putParameter name (← tomlNumbers value)
  | _ => .error .malformed

/-- Assigns a field, or the part of a field that the rest of the key names. -/
def assignField (c : Config) (field : ConfigField) (rest : Toml.Key) (value : Toml.Value) :
    Except ReadError Config :=
  match field.slot, rest, value with
  | .text, [], value => return c.putText field (← tomlText value)
  | .flag, [], value => return { c with virtualTexturing := ← tomlFlag value }
  | .switches, [], .table entries =>
    entries.foldlM (fun c (key, value) => c.assignSwitch key value) c
  | .parameters, [], .table entries =>
    entries.foldlM (fun c (key, value) => c.assignParameter key value) c
  | .switches, _ :: _, value => c.assignSwitch rest value
  | .parameters, _ :: _, value => c.assignParameter rest value
  | slot, [], value => .error (mismatch slot value)
  | _, _ :: _, _ => .error .malformed

/-! ### Headers -/

/-- What the assignments after a header apply to. -/
inductive TomlTarget where
  | root
  | switches
  | parameters
  /-- A value, which takes no assignments. -/
  | value
  /-- A table without a field, whose assignments are left out. -/
  | unknown

/-- What has been read of a document. -/
structure TomlReading where
  config : Config := {}
  keys : Toml.Keys := {}
  target : TomlTarget := .root
  /-- A name without a field has been read. -/
  unknown : Bool := false

namespace TomlReading

/-- What the header of a table leads to. A switch appears with it, and a parameter leads to the last
of its components. -/
def enterTable (r : TomlReading) (field : ConfigField) (rest : Toml.Key) :
    Except ReadError TomlReading :=
  match field.slot, rest with
  | .switches, [] => .ok { r with target := .switches }
  | .switches, [name] =>
    let value := (r.config.staticSwitches.lookup name).getD false
    .ok { r with config := r.config.putSwitch name value, target := .value }
  | .switches, _ => .error (.broken (.part .flag))
  | .parameters, [] => .ok { r with target := .parameters }
  | .parameters, name :: rest =>
    if ((r.config.parameters.lookup name).getD []).isEmpty then .error .malformed
    else if rest.isEmpty then .ok { r with target := .value }
    else .error (.broken (.part .number))
  | _, [] => .ok { r with target := .value }
  | slot, _ => .error (.broken (.part slot))

/-- What the header of the next table of an array leads to. Only the components of a parameter are
an array: each header adds a zero, the first one to none. -/
def enterNext (r : TomlReading) (first : Bool) (field : ConfigField) (rest : Toml.Key) :
    Except ReadError TomlReading :=
  match field.slot, rest with
  | .parameters, [name] =>
    let components := if first then [] else (r.config.parameters.lookup name).getD []
    .ok { r with config := r.config.putParameter name (components ++ [Single.zero]),
                 target := .value }
  | .parameters, name :: _ =>
    if ((r.config.parameters.lookup name).getD []).isEmpty then .error (.broken .item)
    else .error (.broken (.part .number))
  | .switches, _ :: _ :: _ => .error (.broken (.part .flag))
  | .text, _ :: _ => .error (.broken (.part .text))
  | .flag, _ :: _ => .error (.broken (.part .flag))
  | _, _ => .error .malformed

/-- What a header leads to, given what it does to a field. -/
def enter (r : TomlReading) (key : Toml.Key)
    (into : ConfigField → Toml.Key → Except ReadError TomlReading) : Except ReadError TomlReading :=
  match key with
  | [] => .error .malformed
  | name :: rest =>
    match ConfigField.ofNameInAnyCase? name with
    | some field => into field rest
    | none => .ok { r with target := .unknown, unknown := true }

/-- Assigns what an assignment in the root says. -/
def assignRoot (r : TomlReading) (key : Toml.Key) (value : Toml.Value) :
    Except ReadError TomlReading :=
  match key with
  | [] => .error .malformed
  | name :: rest =>
    match ConfigField.ofNameInAnyCase? name with
    | some field => return { r with config := ← r.config.assignField field rest value }
    | none => .ok { r with unknown := true }

/-- Assigns what an assignment says. -/
def assign (r : TomlReading) (key : Toml.Key) (value : Toml.Value) : Except ReadError TomlReading :=
  match r.target with
  | .unknown => .ok r
  | target =>
    match r.keys.assign? key value with
    | none => .error .malformed
    | some keys =>
      let r := { r with keys := keys }
      match target with
      | .root => r.assignRoot key value
      | .switches => return { r with config := ← r.config.assignSwitch key value }
      | .parameters => return { r with config := ← r.config.assignParameter key value }
      | _ => .error .malformed

/-- Applies an expression. -/
def apply (r : TomlReading) : Toml.Expression → Except ReadError TomlReading
  | .assignment key value => r.assign key value
  | .table key =>
    match r.keys.openTable? key with
    | some keys =>
      let r := { r with keys := keys }
      r.enter key r.enterTable
    | none => .error .malformed
  | .tableOfArray key =>
    match r.keys.openNext? key with
    | some keys =>
      let first := (r.keys.find? key).isNone
      let r := { r with keys := keys }
      r.enter key (r.enterNext first)
    | none => .error .malformed

end TomlReading

/-! ### Documents -/

/-- The configuration that a document in TOML stands for. -/
def ofToml (text : String) : Except ReadError Config := do
  let document := Toml.Document.ofText text
  let r ← document.expressions.foldlM TomlReading.apply ({} : TomlReading)
  if document.wellFormed && !r.unknown then return r.config else .error .malformed

end Config

end ShaderGraph
