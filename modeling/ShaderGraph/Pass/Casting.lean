import ShaderGraph.Pass.Emission

/-!
# Casts

Code is brought to a type in three ways. `convert` is the cast a function input asks for: a vector
loses its last components, a scalar is repeated, and nothing else is allowed. `resize` is the cast
of a property: it also pads a vector with zeros. `widened` gives the text of an operand for a
function that does not broadcast scalars.
-/

namespace ShaderGraph

/-- The suffix that keeps the first `n` components. -/
def componentSuffix (n : Nat) : String :=
  (["", ".r", ".rg", ".rgb", ".rgba"] : List String).getD n ""

namespace Context

/-! ### The cast of a function input -/

/-- Casts code that has a text and does not share a bit with the target. -/
def convertPlain (ctx : Context) (c : Code) (source target : ValueType) : PassM Code := do
  if source.isFloat && target.isFloat then
    if target.components < source.components then
      let text ← ctx.textOf c
      ctx.emitInline target (text ++ componentSuffix target.components)
    else if source.components < target.components then
      if source.components != 1 then ctx.report (.invalidCast source target)
      else
        let text ← ctx.textOf c
        ctx.emitInline target
          (target.sourceName ++ "(" ++ Text.repeated target.components text ++ ")")
    else return c
  else if target = .materialAttributes then return c
  else ctx.report (.invalidCast source target)

/-- Brings code to a type compatible with `target`, where only the width of a vector may shrink and
only a scalar may grow. -/
def convert (ctx : Context) (c : Code) (target : ValueType) : PassM Code := do
  match c with
  | none => return none
  | some i =>
    let chunk ← ctx.chunk i
    let source := chunk.type
    if source.shares target then return c
    else if chunk.deferred?.isSome then
      if source.shares .textureVirtual && target.shares .texture2D then return c
      else ctx.convertPlain (← ctx.readSlot i) source target
    else ctx.convertPlain c source target

/-! ### The cast of a property -/

/-- How `resize` goes about it. -/
structure ResizeFlags where
  /-- The type has to be the target, and not only compatible with it. -/
  exact : Bool := false
  /-- A scalar is repeated, and not padded with zeros. -/
  replicate : Bool := false

/-- Casts code that is not a deferred uniform expression. -/
def resizePlain (ctx : Context) (c : Code) (target : ValueType) (flags : ResizeFlags) :
    PassM Code := do
  let source ← ctx.typeOf c
  if flags.exact && source = target then return c
  else if !flags.exact && source.shares target then return c
  else if source.isFloat && target.isFloat then
    let text ← ctx.textOf c
    if target.components < source.components then
      ctx.emitInline target (text ++ componentSuffix target.components)
    else if source.components < target.components then
      let replicate := flags.replicate && (source = .float || source = .float1)
      let missing := target.components - source.components
      let parts := text :: List.replicate missing (if replicate then text else "0")
      ctx.emitInline target (target.sourceName ++ "(" ++ ",".intercalate parts ++ ")")
    else return c
  else if source.shares .textureVirtual && target.shares .texture2D then return c
  else ctx.report .nonNumericCast

/-- Brings code to a type, cutting off or padding components as needed. -/
def resize (ctx : Context) (c : Code) (target : ValueType) (flags : ResizeFlags := {}) :
    PassM Code := do
  match c with
  | none => return none
  | some i =>
    if (← ctx.chunk i).deferred?.isSome then ctx.resizePlain (← ctx.readSlot i) target flags
    else ctx.resizePlain c target flags

/-! ### Operands -/

/-- The text of code as an operand of the given type, a scalar repeated over its components. -/
def widened (ctx : Context) (c : Code) (target : ValueType) : PassM String := do
  let source ← ctx.typeOf c
  if source = target then ctx.textOf c
  else if source.shares target && source.isFloat then
    let text ← ctx.textOf c
    if target = .float1 then return "MaterialFloat(" ++ text ++ ")"
    else if target = .float2 || target = .float3 || target = .float4 then
      return target.sourceName ++ "(" ++ Text.repeated target.components text ++ ")"
    else return text
  else
    let text ← ctx.textOf c
    let _ ← ctx.report (.coercion text source target)
    return ""

/-- Whether arithmetic can be done on a type. -/
def isNumeric (t : ValueType) : Bool := t.isFloat || t = .shadingModel

/-- The type of an arithmetic expression, or why there is none. -/
def arithmeticType (a b : ValueType) : Except Problem ValueType :=
  if !isNumeric a || !isNumeric b then .error (.nonNumericArithmetic a b)
  else if a = b then .ok a
  else if a.shares b then .ok (if a = .float then b else a)
  else .error (.undefinedArithmetic a b)

/-- The type of an arithmetic expression. If there is none, that is reported. -/
def commonType (ctx : Context) (a b : ValueType) : PassM ValueType :=
  match arithmeticType a b with
  | .ok type => return type
  | .error problem => do
    let _ ← ctx.report problem
    return .unknown

end Context

end ShaderGraph
