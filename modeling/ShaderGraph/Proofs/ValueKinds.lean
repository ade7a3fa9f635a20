import ShaderGraph.Pass.Arithmetic

/-!
# Types of values and kinds of textures

A texture has the type of one kind of textures, if the material says so (`Material.TexturesTyped`).
No such type is one that arithmetic is done on, so what an operation asks of the types of its
operands keeps textures from being folded. Some operations do not ask: whether they do is said for
each operand (`BinaryOp.checksFirst`, `BinaryOp.checksSecond`).
-/

namespace ShaderGraph

/-! ### Operands that are checked -/

/-- Whether an operation does not fold a texture: the result has the type of its operand. -/
def UnaryOp.checksOperand : UnaryOp → Bool
  | length _ => false
  | _ => true

/-- Whether an operation does not fold a texture as its first operand. -/
def BinaryOp.checksFirst : BinaryOp → Bool
  | dot _ => false
  | _ => true

/-- Whether an operation does not fold a texture as its second operand. -/
def BinaryOp.checksSecond : BinaryOp → Bool
  | dot _ | fmod | min | max | atan2 => false
  | _ => true

/-! ### Kinds of textures -/

namespace ValueType

variable {mask : Mask}

/-- The kinds of textures. -/
def textureKinds : List ValueType :=
  [texture2D, textureCube, texture2DArray, volumeTexture, textureExternal, textureVirtual]

/-- Whether a type is one kind of textures. -/
def isTextureKind (t : ValueType) : Bool := textureKinds.contains t

theorem mem_textureKinds {t : ValueType} (h : t.isTextureKind) : t ∈ textureKinds :=
  List.contains_iff_mem.1 h

variable {type : ValueType}

theorem isTextureKind_of_isNumeric (h : Context.isNumeric type) : type.isTextureKind = false := by
  have hkinds : ∀ s ∈ textureKinds, Context.isNumeric s = false := by decide
  refine Bool.eq_false_iff.2 fun hkind => ?_
  rw [hkinds type (mem_textureKinds hkind)] at h
  cases h

theorem isTextureKind_of_isTexture (h : type.isTexture = false) : type.isTextureKind = false := by
  have hkinds : ∀ s ∈ textureKinds, s.isTexture := by decide
  refine Bool.eq_false_iff.2 fun hkind => ?_
  rw [hkinds type (mem_textureKinds hkind)] at h
  cases h

theorem isTextureKind_of_components (h : type.components ≠ 0) : type.isTextureKind = false := by
  have hkinds : ∀ s ∈ textureKinds, s.components = 0 := by decide
  exact Bool.eq_false_iff.2 fun hkind => h (hkinds type (mem_textureKinds hkind))

/-- No component of a texture can be selected. -/
theorem isTextureKind_of_mask (h : Context.lacksComponents type mask = false)
    (hmask : mask.selected ≠ []) : type.isTextureKind = false := by
  have hkinds : ∀ s ∈ textureKinds, ∀ r g b a : Bool,
      Context.lacksComponents s ⟨r, g, b, a⟩ = false → (Mask.mk r g b a).selected = [] := by decide
  refine Bool.eq_false_iff.2 fun hkind => hmask ?_
  exact hkinds type (mem_textureKinds hkind) mask.r mask.g mask.b mask.a h

/-- As many components as a mask selects make a type. -/
theorem ofComponents_selected (hmask : mask.selected ≠ []) :
    ofComponents mask.selected.length ≠ unknown := by
  have hall : ∀ r g b a : Bool, (Mask.mk r g b a).selected ≠ [] →
      ofComponents (Mask.mk r g b a).selected.length ≠ unknown := by decide
  exact hall mask.r mask.g mask.b mask.a hmask

theorem ofComponents_ne_textureVirtual (n : Nat) : ofComponents n ≠ .textureVirtual := by
  unfold ofComponents
  split <;> decide

end ValueType

/-- Every texture of a material is of one kind. -/
def Material.TexturesTyped (m : Material) : Prop :=
  ∀ a ∈ m.textures, a.type.isTexture → a.type.isTextureKind

instance (m : Material) : Decidable m.TexturesTyped :=
  inferInstanceAs (Decidable (∀ a ∈ m.textures, a.type.isTexture → a.type.isTextureKind))

/-- The kind that a texture of the material counts as: without virtual texturing, a virtual texture
is an ordinary one. -/
def Environment.kindOf (env : Environment) (asset : TextureAsset) : ValueType :=
  if asset.type = .textureVirtual && !env.options.virtualTexturing then .texture2D else asset.type

/-- A reference names a texture of the material that counts as one of a kind. -/
def Environment.Names (env : Environment) (ref : TextureRef) (type : ValueType) : Prop :=
  0 ≤ ref.index ∧
    ∃ asset, env.material.textures[ref.index.toNat]? = some asset ∧ env.kindOf asset = type

namespace Context

/-! ### Widths -/

theorem components_le (t : ValueType) : t.components ≤ 4 := by
  unfold ValueType.components
  split <;> decide

theorem length_selected_le (mask : Mask) : mask.selected.length ≤ 4 := by
  refine Nat.le_trans (List.length_filterMap_le _ _) ?_
  simp [Mask.toList]

theorem known_of_isFloat {type : ValueType} (h : type.isFloat) : type ≠ .unknown := by
  rintro rfl
  exact absurd h (by decide)

theorem ne_textureVirtual_of_isFloat {type : ValueType} (h : type.isFloat = true) :
    type ≠ .textureVirtual := by
  rintro rfl
  exact absurd h (by decide)

end Context

end ShaderGraph
