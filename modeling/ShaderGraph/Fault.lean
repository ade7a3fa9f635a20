import ShaderGraph.ValueType

/-!
# Faults

A fault is a broken promise inside a compilation, not a mistake of a material: it ends the
compilation without a result. Mistakes of a material are diagnostics (`ShaderGraph.Diagnostic`).
-/

namespace ShaderGraph

/-- Why a compilation ended without a result. -/
inductive Fault where
  /-- A handle does not point into its scope. -/
  | codeOutOfRange (index : Int)
  /-- Code was emitted after the code was fixed. -/
  | emittedAfterFinish
  /-- A slot was asked for code that has none. -/
  | noSlot
  /-- A slot was asked for a uniform of a type that has none. -/
  | noSlotType (type : ValueType)
  /-- A program was asked for an expression that reads a texture. -/
  | textureProgram
  /-- More parameters than a program can name. -/
  | parameterIndex
  /-- A layer was added to a full stack. -/
  | layersExhausted
  /-- A layer that no stack has. -/
  | invalidLayer
  /-- A page table lookup with an unlisted mip mode. -/
  | invalidMipMode
  /-- A frame was left that is not the innermost one. -/
  | unbalancedFrames
  /-- A result does not point into its scope. -/
  | resultOutOfRange
  /-- A result is a uniform that was not read through its slot. -/
  | resultNotRead
  /-- A customized texture coordinate beyond the last. -/
  | customizedUVRange
  /-- A stage that does not exist. -/
  | noSuchStage
  /-- The nesting of compilations went beyond its bound. -/
  | tooDeep
deriving DecidableEq

/-- The text of a fault, if it has one. -/
def Fault.message? : Fault → Option String
  | codeOutOfRange index => some s!"matbuild: code chunk index out of range: {index}"
  | emittedAfterFinish => some "matbuild: code chunk added after finalization"
  | noSlot => some "matbuild: access of non-uniform or constant chunk"
  | noSlotType type => some s!"matbuild: uniform of type {type.name} cannot be accessed"
  | textureProgram => some "matbuild: texture uniform has no preshader"
  | parameterIndex => some "mateval: parameter index out of range"
  | layersExhausted => some "matbuild: virtual texture stack layers exhausted"
  | invalidLayer => some "matbuild: invalid virtual texture stack layer"
  | invalidMipMode => some "matbuild: invalid mip value mode"
  | unbalancedFrames => some "matbuild: unbalanced function stack"
  | resultOutOfRange => some "matbuild: result code out of range"
  | resultNotRead => some "matbuild: non-constant uniform result must be accessed before fixing"
  | customizedUVRange => some "matbuild: customized UV index out of range"
  | noSuchStage => none
  | tooDeep => none

end ShaderGraph
