/-!
# Shader stages and feature levels
-/

namespace ShaderGraph

/-! ### Stages -/

/-- The shader stage in which code runs. -/
inductive Stage where
  | vertex
  | hull
  | domain
  | pixel
  | compute
deriving DecidableEq

namespace Stage

/-- The stages in the order of their numbers. -/
def all : List Stage := [vertex, hull, domain, pixel, compute]

/-- The stage with the given number. -/
def ofCode? (code : UInt8) : Option Stage := all[code.toNat]?

/-- The name of a stage. -/
def name : Stage → String
  | vertex => "Vertex"
  | hull => "Hull"
  | domain => "Domain"
  | pixel => "Pixel"
  | compute => "Compute"

/-- The name of the stage with the given number, also of a number without a stage. -/
def nameOfCode (code : UInt8) : String :=
  match ofCode? code with
  | some stage => stage.name
  | none => s!"Frequency({code})"

end Stage

/-- Something for each stage. -/
structure StageTable (α : Type) where
  vertex : α
  hull : α
  domain : α
  pixel : α
  compute : α

namespace StageTable

variable {α : Type}

/-- The same for every stage. -/
def const (a : α) : StageTable α := ⟨a, a, a, a, a⟩

/-- What is kept for a stage. -/
def get (t : StageTable α) : Stage → α
  | .vertex => t.vertex
  | .hull => t.hull
  | .domain => t.domain
  | .pixel => t.pixel
  | .compute => t.compute

/-- The table with `a` kept for a stage. -/
def set (t : StageTable α) (stage : Stage) (a : α) : StageTable α :=
  match stage with
  | .vertex => { t with vertex := a }
  | .hull => { t with hull := a }
  | .domain => { t with domain := a }
  | .pixel => { t with pixel := a }
  | .compute => { t with compute := a }

@[simp] theorem get_const (a : α) (s : Stage) : (const a).get s = a := by cases s <;> rfl

@[simp] theorem get_set_self (t : StageTable α) (s : Stage) (a : α) : (t.set s a).get s = a := by
  cases s <;> rfl

theorem get_set_of_ne (t : StageTable α) {s r : Stage} (h : r ≠ s) (a : α) :
    (t.set s a).get r = t.get r := by
  cases s <;> cases r <;> first | rfl | exact absurd rfl h

end StageTable

/-! ### Feature levels -/

/-- The capability tier of the target platform. -/
inductive FeatureLevel where
  | es2
  | es31
  | sm4
  | sm5
deriving DecidableEq

namespace FeatureLevel

/-- The levels from the lowest to the highest. -/
def all : List FeatureLevel := [es2, es31, sm4, sm5]

/-- The position of a level. -/
def rank : FeatureLevel → Nat
  | es2 => 0
  | es31 => 1
  | sm4 => 2
  | sm5 => 3

/-- Whether a level offers less than another. -/
def below (l m : FeatureLevel) : Bool := l.rank < m.rank

/-- The name of a level. -/
def name : FeatureLevel → String
  | es2 => "ES2"
  | es31 => "ES3_1"
  | sm4 => "SM4"
  | sm5 => "SM5"

/-- The name of the level with the given number, also of a number without a level. -/
def nameOfCode (code : UInt8) : String :=
  match all[code.toNat]? with
  | some level => level.name
  | none => s!"FeatureLevel({code})"

end FeatureLevel

end ShaderGraph
