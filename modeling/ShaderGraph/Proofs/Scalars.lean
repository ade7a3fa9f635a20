import ShaderGraph.Proofs.ValueKinds

/-!
# Scalars among uniform expressions

A scalar is kept replicated over the four components of a value, so that operations which work
component by component broadcast it. An expression of scalar type has a replicated value if its
types fit together (`Uniform.Coherent`) and such operations read scalars only
(`Uniform.evaluate_isScalar`). Addition and its like check that their operands are scalars if the
result is to be one. The operations that take their type from the first operand do not: the minimum
of a scalar and a vector is of scalar type, and has components of the vector in it.
-/

namespace ShaderGraph

/-! ### Types of expressions -/

/-- Whether an operation can have a scalar for its result. -/
def BinaryOp.yieldsScalar : BinaryOp → Bool
  | cross | append _ => false
  | _ => true

namespace Uniform

/-- Whether an expression is of scalar type. -/
def isScalar : Uniform → Bool
  | constant _ type | unary _ type _ | binary _ type _ _ | clamp type _ _ _ => type = .float
  | scalarParameter _ _ => true
  | swizzle pattern _ => pattern.count = 1
  | vectorParameter _ _ | texture _ => false

/-- The types of an expression and of its parts fit together: a literal of scalar type is
replicated, and an operation is of scalar type only if the operands are whose types it checks. -/
def Coherent : Uniform → Prop
  | constant v type => type = .float → v.IsScalar
  | unary op type a => (type = .float → op.checksOperand → a.isScalar) ∧ a.Coherent
  | binary op type a b =>
    (type = .float → op.yieldsScalar ∧ (op.checksFirst → a.isScalar) ∧
      (op.checksSecond → b.isScalar)) ∧ a.Coherent ∧ b.Coherent
  | clamp type a lo hi =>
    (type = .float → a.isScalar) ∧ a.Coherent ∧ lo.Coherent ∧ hi.Coherent
  | swizzle _ a => a.Coherent
  | _ => True

/-- Whether the scalars in an expression stay apart from vectors: an operation that takes its type
from its first operand has scalars for its other operands, too. What is reduced to a scalar, or
selected, may be anything. -/
def keepsScalarsApart : Uniform → Bool
  | unary op _ a => !op.checksOperand || a.keepsScalarsApart
  | binary op _ a b =>
    !op.checksFirst ||
      a.keepsScalarsApart && b.keepsScalarsApart && (op.checksSecond || b.isScalar)
  | clamp _ a lo hi =>
    a.keepsScalarsApart && lo.keepsScalarsApart && hi.keepsScalarsApart && lo.isScalar &&
      hi.isScalar
  | _ => true

theorem isScalar_of_sameRoot {u v : Uniform} (h : u.sameRoot v) : u.isScalar = v.isScalar := by
  cases u <;> cases v <;> simp_all [sameRoot, isScalar]

end Uniform

theorem ValueType.eq_one_of_ofComponents {n : Nat} (h : ofComponents n = .float) : n = 1 := by
  unfold ofComponents at h
  split at h
  · rfl
  all_goals cases h

/-! ### Values -/

namespace Value

variable {v w u : Value}

theorem IsScalar.map (h : v.IsScalar) (f : Single → Single) : (v.map f).IsScalar := by
  rw [IsScalar] at h
  rw [h]
  rfl

theorem IsScalar.zipWith (hv : v.IsScalar) (hw : w.IsScalar) (f : Single → Single → Single) :
    (v.zipWith f w).IsScalar := by
  rw [IsScalar] at hv hw
  rw [hv, hw]
  rfl

theorem IsScalar.clamp (hv : v.IsScalar) (hw : w.IsScalar) (hu : u.IsScalar) :
    (v.clamp w u).IsScalar := by
  rw [IsScalar] at hv hw hu
  rw [hv, hw, hu]
  rfl

end Value

theorem UnaryOp.apply_isScalar (op : UnaryOp) {v : Value}
    (h : op.checksOperand → v.IsScalar) : (op.apply v).IsScalar := by
  cases op with
  | length => exact Value.replicate_isScalar _
  | saturate => exact (h rfl).map fun x => x.clamp Single.zero Single.one
  | _ => exact (h rfl).map _

theorem BinaryOp.apply_isScalar {op : BinaryOp} {v w : Value} (hop : op.yieldsScalar)
    (h : op.checksFirst → v.IsScalar ∧ w.IsScalar) :
    (op.apply v w).IsScalar := by
  cases op with
  | dot => exact Value.replicate_isScalar _
  | cross | append => cases hop
  | _ => exact (h rfl).1.zipWith (h rfl).2 _

/-- **The value of a scalar is replicated**, if scalars are kept apart from vectors in it. -/
theorem Uniform.evaluate_isScalar {u : Uniform} (hcoherent : u.Coherent) (hscalar : u.isScalar)
    (happart : u.keepsScalarsApart) : (u.evaluate []).IsScalar := by
  induction u with
  | constant v type => exact hcoherent (of_decide_eq_true hscalar)
  | scalarParameter => exact Value.replicate_isScalar _
  | vectorParameter | texture => cases hscalar
  | unary op type a ih =>
    refine op.apply_isScalar fun hop => ih hcoherent.2 ?_ ?_
    · exact hcoherent.1 (of_decide_eq_true hscalar) hop
    · simpa [keepsScalarsApart, hop] using happart
  | binary op type a b iha ihb =>
    obtain ⟨htypes, ha, hb⟩ := hcoherent
    obtain ⟨hop, hfirst, hsecond⟩ := htypes (of_decide_eq_true hscalar)
    refine op.apply_isScalar hop fun hreads => ?_
    simp only [keepsScalarsApart, hreads, Bool.not_true, Bool.false_or, Bool.and_eq_true,
      Bool.or_eq_true] at happart
    obtain ⟨⟨hapartA, hapartB⟩, hsecond'⟩ := happart
    exact ⟨iha ha (hfirst hreads) hapartA, ihb hb (hsecond'.elim hsecond id) hapartB⟩
  | clamp type a lo hi iha ihlo ihhi =>
    obtain ⟨hfirst, ha, hlo, hhi⟩ := hcoherent
    simp only [keepsScalarsApart, Bool.and_eq_true] at happart
    obtain ⟨⟨⟨⟨hapart, hapartLo⟩, hapartHi⟩, hslo⟩, hshi⟩ := happart
    exact (iha ha (hfirst (of_decide_eq_true hscalar)) hapart).clamp (ihlo hlo hslo hapartLo)
      (ihhi hhi hshi hapartHi)
  | swizzle pattern a ih =>
    show (Value.swizzle pattern _).IsScalar
    unfold Value.swizzle
    rw [if_pos (of_decide_eq_true hscalar)]
    exact Value.replicate_isScalar _

end ShaderGraph
