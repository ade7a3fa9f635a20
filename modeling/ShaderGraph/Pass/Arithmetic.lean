import ShaderGraph.Pass.Casting

/-!
# Literals, parameters and arithmetic

Each operation folds when all of its operands are uniform expressions: the result is again a
uniform expression, with a text of its own only if it is constant. Otherwise it emits code.
Operands are read from left to right.
-/

namespace ShaderGraph

/-- Appends the literal of the first `n` components of a value to a buffer. -/
def Value.appendLiteral (b : List Char) (v : Value) (n : Nat) : List Char :=
  let b := if 1 < n then b ++ s!"MaterialFloat{n}(".toList else b
  let b := (v.toList.take n).zipIdx.foldl
    (fun b (x, i) => x.appendLiteral (if 0 < i then b ++ [','] else b) '-' '.') b
  if 1 < n then b ++ [')'] else b

/-- The literal of the first `n` components of a value. -/
def Value.literal (v : Value) (n : Nat) : String := String.ofList (v.appendLiteral [] n)

namespace Context

/-! ### Literals and parameters -/

/-- A literal of the given type. -/
def constant (ctx : Context) (v : Value) (type : ValueType) : PassM Code :=
  let text := v.literal type.components
  ctx.emitUniform (.constant v type) [] type (Digest.ofText text 0) text

/-- A scalar literal. -/
def constant1 (ctx : Context) (x : Single) : PassM Code := ctx.constant (.replicate x) .float

/-- A literal of two components. -/
def constant2 (ctx : Context) (x y : Single) : PassM Code :=
  ctx.constant ⟨x, y, .zero, .zero⟩ .float2

/-- A literal of three components. -/
def constant3 (ctx : Context) (x y z : Single) : PassM Code :=
  ctx.constant ⟨x, y, z, .zero⟩ .float3

/-- A literal of four components. -/
def constant4 (ctx : Context) (v : Value) : PassM Code := ctx.constant v .float4

/-- A scalar that can be overridden by name. -/
def scalarParameter (ctx : Context) (name : String) (default : Single) : PassM Code :=
  ctx.emitUniform (.scalarParameter name default) [] .float 0 ""

/-- A vector that can be overridden by name. -/
def vectorParameter (ctx : Context) (name : String) (default : Value) : PassM Code :=
  ctx.emitUniform (.vectorParameter name default) [] .float4 0 ""

/-! ### Static values -/

/-- A boolean known at compile time. -/
def staticBool (ctx : Context) (value : Bool) : PassM Code :=
  ctx.emitInline .staticBool (if value then "true" else "false")

/-- A named boolean: that of the options, else that of the material, else the default. -/
def staticBoolParameter (ctx : Context) (name : String) (default : Bool) : PassM Code :=
  let ofMaterial := (ctx.material.staticSwitches.lookup name).getD default
  ctx.staticBool ((ctx.options.staticSwitches.lookup name).getD ofMaterial)

/-- The value of a static boolean, nothing for no code or for code of another type. -/
def staticBoolValue (ctx : Context) (c : Code) : PassM (Option Bool) := do
  if c.isNone then return none
  let type ← ctx.typeOf c
  if type != .staticBool then
    let _ ← ctx.report (.notStaticBool type)
    return none
  return some ((← ctx.textOf c) == "true")

/-! ### Folding -/

/-- Emits a folded expression. Only a constant one needs its text. -/
def emitMath (ctx : Context) (u : Uniform) (arguments : List SharedUniform) (type : ValueType)
    (pattern : String) (operands : PassM (List String)) : PassM Code := do
  let places := arguments.map (·.id)
  if u.isConstant then
    let text := Text.fill pattern (← operands)
    ctx.emitUniform u places type (Digest.ofText text 0) text
  else ctx.emitUniform u places type 0 ""

/-- The texts of two operands. -/
def textsOf (ctx : Context) (a b : Code) : PassM (List String) := do
  let s ← ctx.textOf a
  let t ← ctx.textOf b
  return [s, t]

/-! ### The four operations -/

/-- Emits an arithmetic expression. Code that is not folded is told apart by its pattern and the
digests of its operands. -/
def arithmetic (ctx : Context) (op : BinaryOp) (pattern : String) (a b : Code) : PassM Code := do
  if a.isNone || b.isNone then return none
  let type ← ctx.commonType (← ctx.typeOf a) (← ctx.typeOf b)
  match ← ctx.uniformOf a, ← ctx.uniformOf b with
  | some u, some v =>
    ctx.emitMath (.binary op type u.expr v.expr) [u, v] type pattern (ctx.textsOf a b)
  | _, _ =>
    let da ← ctx.digestOf a
    let db ← ctx.digestOf b
    let texts ← ctx.textsOf a b
    ctx.emitWith (Digest.ofText pattern (Digest.combine [da, db])) type (Text.fill pattern texts)

/-- The sum. -/
def add (ctx : Context) (a b : Code) : PassM Code := ctx.arithmetic .add "(%s + %s)" a b

/-- The difference. -/
def sub (ctx : Context) (a b : Code) : PassM Code := ctx.arithmetic .sub "(%s - %s)" a b

/-- The product, component by component. -/
def mul (ctx : Context) (a b : Code) : PassM Code := ctx.arithmetic .mul "(%s * %s)" a b

/-- The quotient, component by component. -/
def div (ctx : Context) (a b : Code) : PassM Code := ctx.arithmetic .div "(%s / %s)" a b

/-! ### Products of vectors -/

/-- The text of an operand of an inner product; a vector that is too wide is cut. -/
def dotOperand (ctx : Context) (c : Code) (target : ValueType) : PassM String := do
  let source ← ctx.typeOf c
  if target != .float && source != .float && target.components < source.components then
    ctx.textOf (← ctx.convert c target)
  else ctx.widened c target

/-- Whether the first operand of an inner product goes with the type of the second. -/
def promotesFirst (s t : ValueType) : Bool :=
  s = .float || (t != .float && t.components < s.components)

/-- The texts of the operands of an inner product, of which one goes with the type of the other. -/
def dotOperands (ctx : Context) (a b : Code) (s t : ValueType) : PassM (List String) := do
  if promotesFirst s t then
    let x ← ctx.dotOperand a t
    let y ← ctx.textOf b
    return [x, y]
  else
    let x ← ctx.textOf a
    let y ← ctx.dotOperand b s
    return [x, y]

/-- The inner product. A scalar is promoted, and the wider of two vectors is cut. -/
def dot (ctx : Context) (a b : Code) : PassM Code := do
  if a.isNone || b.isNone then return none
  let ta ← ctx.typeOf a
  let tb ← ctx.typeOf b
  let operands := ctx.dotOperands a b ta tb
  match ← ctx.uniformOf a, ← ctx.uniformOf b with
  | some u, some v =>
    if ta = .float && tb = .float then
      ctx.emitMath (.binary .mul .float u.expr v.expr) [u, v] .float "(%s * %s)" (ctx.textsOf a b)
    else
      let width := (if promotesFirst ta tb then tb else ta).components
      ctx.emitMath (.binary (.dot width) .float u.expr v.expr) [u, v] .float "dot(%s,%s)" operands
  | _, _ => ctx.emitTemporary .float (Text.fill "dot(%s, %s)" (← operands))

/-- The cross product of two vectors of three components. -/
def cross (ctx : Context) (a b : Code) : PassM Code := do
  if a.isNone || b.isNone then return none
  match ← ctx.uniformOf a, ← ctx.uniformOf b with
  | some u, some v =>
    let type ← ctx.commonType (← ctx.typeOf a) (← ctx.typeOf b)
    if type = .float2 || !type.isFloat then ctx.report .crossOperands
    else
      ctx.emitMath (.binary .cross .float3 u.expr v.expr) [u, v] .float3 "cross(%s,%s)"
        (ctx.textsOf a b)
  | _, _ =>
    let s ← ctx.widened a .float3
    let t ← ctx.widened b .float3
    ctx.emitTemporary .float3 (Text.fill "cross(%s,%s)" [s, t])

/-! ### Functions -/

/-- The power, whose base is kept positive. It is never folded. -/
def power (ctx : Context) (base exponent : Code) : PassM Code := do
  if base.isNone || exponent.isNone then return none
  let type ← ctx.typeOf base
  let s ← ctx.textOf base
  let t ← ctx.widened exponent .float
  ctx.emitTemporary type (Text.fill "PositiveClampedPow(%s,%s)" [s, t])

/-- A function of one operand with a result of the given type. -/
def unaryAs (ctx : Context) (op : UnaryOp) (type : ValueType) (x : Code) : PassM Code := do
  let pattern := op.opcode.name ++ "(%s)"
  let operands : PassM (List String) := do return [← ctx.textOf x]
  match ← ctx.uniformOf x with
  | some u => ctx.emitMath (.unary op type u.expr) [u] type pattern operands
  | none => ctx.emitTemporary type (Text.fill pattern (← operands))

/-- A function of one operand, which its result has the type of. -/
def unary (ctx : Context) (op : UnaryOp) (x : Code) : PassM Code := do
  if x.isNone then return none
  ctx.unaryAs op (← ctx.typeOf x) x

/-- The euclidean length, a scalar. -/
def length (ctx : Context) (x : Code) : PassM Code := do
  if x.isNone then return none
  ctx.unaryAs (.length (← ctx.typeOf x).components) .float x

/-- A function of two operands, of which the first gives the type. -/
def binaryOfFirst (ctx : Context) (op : BinaryOp) (pattern : String) (a b : Code) :
    PassM Code := do
  if a.isNone || b.isNone then return none
  let type ← ctx.typeOf a
  let operands : PassM (List String) := do
    let s ← ctx.textOf a
    let t ← ctx.widened b type
    return [s, t]
  match ← ctx.uniformOf a, ← ctx.uniformOf b with
  | some u, some v => ctx.emitMath (.binary op type u.expr v.expr) [u, v] type pattern operands
  | _, _ => ctx.emitTemporary type (Text.fill pattern (← operands))

/-- The remainder of the division. -/
def fmod (ctx : Context) (a b : Code) : PassM Code := ctx.binaryOfFirst .fmod "fmod(%s,%s)" a b

/-- The smaller of two values, component by component. -/
def min (ctx : Context) (a b : Code) : PassM Code := ctx.binaryOfFirst .min "min(%s,%s)" a b

/-- The larger of two values, component by component. -/
def max (ctx : Context) (a b : Code) : PassM Code := ctx.binaryOfFirst .max "max(%s,%s)" a b

/-- The angle of the vector `(x, y)`. -/
def atan2 (ctx : Context) (y x : Code) : PassM Code :=
  ctx.binaryOfFirst .atan2 "atan2(%s, %s)" y x

/-- A value brought between two bounds. -/
def clamp (ctx : Context) (x lo hi : Code) : PassM Code := do
  if x.isNone || lo.isNone || hi.isNone then return none
  let type ← ctx.typeOf x
  let pattern := "min(max(%s,%s),%s)"
  let operands : PassM (List String) := do
    let s ← ctx.textOf x
    let t ← ctx.widened lo type
    let r ← ctx.widened hi type
    return [s, t, r]
  match ← ctx.uniformOf x, ← ctx.uniformOf lo, ← ctx.uniformOf hi with
  | some u, some v, some w =>
    ctx.emitMath (.clamp type u.expr v.expr w.expr) [u, v, w] type pattern operands
  | _, _, _ => ctx.emitTemporary type (Text.fill pattern (← operands))

/-! ### Choices -/

/-- Whether two optional values are there and equal. -/
def bothEqual : Option Value → Option Value → Bool
  | some v, some w => v.equal w
  | _, _ => false

/-- The linear interpolation. Equal inputs, and a constant zero or one, select an input. -/
def lerp (ctx : Context) (x y alpha : Code) : PassM Code := do
  if x.isNone || y.isNone || alpha.isNone then return none
  if x = y then return x
  let tx ← ctx.typeOf x
  let ty ← ctx.typeOf y
  if bothEqual (← ctx.constantOf x) (← ctx.constantOf y) && tx = ty then return x
  let type ← ctx.commonType tx ty
  let alphaType := if (← ctx.typeOf alpha) = type then type else .float1
  let selected : Option Code :=
    match ← ctx.constantOf alpha with
    | some v =>
      if alphaType != .float1 then none
      else if v.x.equal .zero then some x
      else if v.x.equal .one then some y
      else none
    | none => none
  match selected with
  | some c => return c
  | none =>
    let s ← ctx.widened x type
    let t ← ctx.widened y type
    let r ← ctx.widened alpha alphaType
    ctx.emitTemporary type (Text.fill "lerp(%s,%s,%s)" [s, t, r])

/-- The choice between three values, by comparing two others up to a threshold. -/
def chooseThree (ctx : Context) (a b greater equal less threshold : Code) : PassM Code := do
  if threshold.isNone then return none
  let te ← ctx.typeOf equal
  let tl ← ctx.typeOf less
  let inner ← ctx.commonType te tl
  let type ← ctx.commonType (← ctx.typeOf greater) inner
  let cg ← ctx.resize greater type
  let ce ← ctx.resize equal type
  let cl ← ctx.resize less type
  if cg.isNone || ce.isNone || cl.isNone then return none
  let s₁ ← ctx.textOf a
  let s₂ ← ctx.textOf b
  let s₃ ← ctx.textOf threshold
  let s₄ ← ctx.textOf a
  let s₅ ← ctx.textOf b
  let s₆ ← ctx.textOf cg
  let s₇ ← ctx.textOf cl
  let s₈ ← ctx.textOf ce
  ctx.emitTemporary type <|
    Text.fill "((abs(%s - %s) > %s) ? (%s >= %s ? %s : %s) : %s)" [s₁, s₂, s₃, s₄, s₅, s₆, s₇, s₈]

/-- The choice between two values, by comparing two others. -/
def chooseTwo (ctx : Context) (a b greater less : Code) : PassM Code := do
  let type ← ctx.commonType (← ctx.typeOf greater) (← ctx.typeOf less)
  let cg ← ctx.resize greater type
  let cl ← ctx.resize less type
  if cg.isNone || cl.isNone then return none
  let s₁ ← ctx.textOf a
  let s₂ ← ctx.textOf b
  let s₃ ← ctx.textOf cg
  let s₄ ← ctx.textOf cl
  ctx.emitTemporary type (Text.fill "((%s >= %s) ? %s : %s)" [s₁, s₂, s₃, s₄])

/-- The choice by comparing two values; without a value for equality there are two outcomes, and
the threshold is not used. -/
def choose (ctx : Context) (a b greater equal less threshold : Code) : PassM Code := do
  if a.isNone || b.isNone || greater.isNone || less.isNone then return none
  if equal.isSome then ctx.chooseThree a b greater equal less threshold
  else ctx.chooseTwo a b greater less

/-! ### Components -/

/-- Whether a type lacks a component that a mask selects. The widths are compared by their bits. -/
def lacksComponents (type : ValueType) (mask : Mask) : Bool :=
  let width := type.floatPart
  (mask.a && !width.atLeast .float4) || (mask.b && !width.atLeast .float3) ||
    (mask.g && !width.atLeast .float2) || (mask.r && !width.atLeast .float1)

/-- Selects components. A scalar of no particular width has one component only. -/
def componentMask (ctx : Context) (vector : Code) (mask : Mask) : PassM Code := do
  if vector.isNone then return none
  let type ← ctx.typeOf vector
  if lacksComponents type mask then
    let text ← ctx.textOf vector
    ctx.report (.fewComponents text type mask)
  else
    let sources := mask.selected.map fun i => if type = .float then 0 else i
    if sources.isEmpty then ctx.report (.emptyMask mask)
    else
      let letters := String.ofList (sources.map fun i => ['r', 'g', 'b', 'a'].getD i 'r')
      let resultType := ValueType.ofComponents sources.length
      let operands : PassM (List String) := do return [← ctx.textOf vector, letters]
      match ← ctx.uniformOf vector with
      | some u =>
        let source (i : Nat) : UInt8 := (sources.getD i 0).toUInt8
        let pattern : Swizzle := ⟨sources.length, source 0, source 1, source 2, source 3⟩
        ctx.emitMath (.swizzle pattern u.expr) [u] resultType "%s.%s" operands
      | none => ctx.emitInline resultType (Text.fill "%s.%s" (← operands))

/-- Selects the components of a named mask: that of the material, else the default. -/
def staticComponentMask (ctx : Context) (vector : Code) (name : String) (default : Mask) :
    PassM Code :=
  ctx.componentMask vector ((ctx.material.staticMasks.lookup name).getD default)

/-- The components of one value, then those of another. -/
def append (ctx : Context) (a b : Code) : PassM Code := do
  if a.isNone || b.isNone then return none
  let ta ← ctx.typeOf a
  let tb ← ctx.typeOf b
  let n := ta.components + tb.components
  let type := ValueType.ofComponents n
  if ta.components = 0 || tb.components = 0 || type = .unknown then
    ctx.report (.cannotAppend ta tb)
  else
    let pattern := s!"MaterialFloat{n}(%s,%s)"
    match ← ctx.uniformOf a, ← ctx.uniformOf b with
    | some u, some v =>
      ctx.emitMath (.binary (.append ta.components) type u.expr v.expr) [u, v] type pattern
        (ctx.textsOf a b)
    | _, _ => ctx.emitInline type (Text.fill pattern (← ctx.textsOf a b))

end Context

end ShaderGraph
