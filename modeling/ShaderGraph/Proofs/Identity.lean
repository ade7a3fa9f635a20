import ShaderGraph.Proofs.AppendOnly
import ShaderGraph.Uniform.Record

/-!
# Identical expressions

Uniform expressions are shared if they are identical, and identity compares numbers as numbers: a
NaN differs from itself, and the two zeros are one. So identity is symmetric and transitive, but
identical expressions need not have the same value: a quotient by zero and one by minus zero are
identical. What holds is that the signs of zeros are all in which the numbers of identical
expressions can differ, and that where these signs agree, under the given overrides, so do the
values, bit for bit (`Uniform.DoesFor`).

The same is proved of records, in which anything may be written. A record is identical to itself
even with a NaN in it, so there the numbers of records have to tell them apart
(`UniformRecord.IsStore`). And it is proved of the entry that code for an expression is given: it
does for the expression (`Uniform.DoesFor.of_standsFor`).
-/

namespace ShaderGraph

variable {e f : UniformEntry}

/-! ### Numbers -/

/-- The components are the same but for the signs of zeros. -/
def Value.UpToSign (v w : Value) : Prop := List.Forall₂ Single.UpToSign v.toList w.toList

namespace Value

variable {u v w : Value}

@[refl] theorem UpToSign.refl (v : Value) : v.UpToSign v :=
  List.forall₂_same.mpr fun _ _ => .inl rfl

theorem equal_iff :
    v.equal w ↔ v.x.equal w.x ∧ v.y.equal w.y ∧ v.z.equal w.z ∧ v.w.equal w.w := by
  simp [equal, equalUpTo, toList]

theorem upToSign_of_equal (h : v.equal w) : v.UpToSign w := by
  obtain ⟨hx, hy, hz, hw⟩ := equal_iff.mp h
  exact .cons (Single.upToSign_of_equal hx) (.cons (Single.upToSign_of_equal hy)
    (.cons (Single.upToSign_of_equal hz) (.cons (Single.upToSign_of_equal hw) .nil)))

theorem equal_trans (h : u.equal v) (h' : v.equal w) : u.equal w := by
  simp only [equal_iff] at h h' ⊢
  exact ⟨Single.equal_trans h.1 h'.1, Single.equal_trans h.2.1 h'.2.1,
    Single.equal_trans h.2.2.1 h'.2.2.1, Single.equal_trans h.2.2.2 h'.2.2.2⟩

/-- An override, or else the default: equal defaults give values that differ in signs of zeros at
most. -/
theorem upToSign_getD (override : Option Value) (h : v.UpToSign w) :
    (override.getD v).UpToSign (override.getD w) := by
  cases override with
  | none => exact h
  | some => exact .refl _

end Value

/-! ### Expressions -/

namespace Uniform

/-- The numbers that an expression is computed from: its literals, and its parameters as the
overrides leave them. -/
def leaves (overrides : Overrides) : Uniform → List Value
  | constant v _ => [v]
  | scalarParameter name default => [(overrides.lookup name).getD (Value.replicate default)]
  | vectorParameter name default => [(overrides.lookup name).getD default]
  | texture _ => []
  | unary _ _ a | swizzle _ a => a.leaves overrides
  | binary _ _ a b => a.leaves overrides ++ b.leaves overrides
  | clamp _ a lo hi => a.leaves overrides ++ (lo.leaves overrides ++ hi.leaves overrides)

/-- One expression does for another: their numbers differ in the signs of zeros at most, and if
they do not differ, nor do their values. -/
structure DoesFor (u v : Uniform) : Prop where
  leaves : ∀ o, List.Forall₂ Value.UpToSign (u.leaves o) (v.leaves o)
  evaluate : ∀ o, u.leaves o = v.leaves o → u.evaluate o = v.evaluate o

variable {u v w : Uniform}

@[refl] theorem DoesFor.refl (u : Uniform) : u.DoesFor u :=
  ⟨fun _ => List.forall₂_same.mpr fun _ _ => .refl _, fun _ _ => rfl⟩

/-- Literals and parameters that are the same but for the signs of zeros. -/
theorem DoesFor.of_leaf (hleaves : ∀ o, u.leaves o = [u.evaluate o])
    (hleaves' : ∀ o, v.leaves o = [v.evaluate o])
    (h : ∀ o, (u.evaluate o).UpToSign (v.evaluate o)) : u.DoesFor v where
  leaves o := by
    rw [hleaves, hleaves']
    exact .cons (h o) .nil
  evaluate o heq := by
    rw [hleaves, hleaves'] at heq
    exact List.singleton_inj.mp heq

/-- Where the numbers of two expressions agree, those of a part do. -/
theorem DoesFor.append_inj {a b : Uniform} (h : a.DoesFor b) {o : Overrides} {as bs : List Value}
    (heq : a.leaves o ++ as = b.leaves o ++ bs) : a.evaluate o = b.evaluate o ∧ as = bs := by
  obtain ⟨hfirst, hrest⟩ := List.append_inj heq (h.leaves o).length_eq
  exact ⟨h.evaluate o hfirst, hrest⟩

/-- Under one root, operands that do for others do. -/
theorem DoesFor.of_sameRoot (hroot : u.sameRoot v)
    (hoperands : List.Forall₂ DoesFor u.operands v.operands) : u.DoesFor v := by
  cases u <;> cases v <;>
    simp only [sameRoot, Bool.and_eq_true, beq_iff_eq, Bool.false_eq_true] at hroot <;>
    simp only [operands, List.forall₂_cons, List.forall₂_nil_left_iff, and_true] at hoperands
  case constant.constant =>
    exact .of_leaf (fun _ => rfl) (fun _ => rfl) fun _ => Value.upToSign_of_equal hroot.1
  case scalarParameter.scalarParameter =>
    obtain ⟨rfl, hdefault⟩ := hroot
    have hzeros := Single.upToSign_of_equal hdefault
    exact .of_leaf (fun _ => rfl) (fun _ => rfl) fun o => Value.upToSign_getD (o.lookup _)
      (.cons hzeros (.cons hzeros (.cons hzeros (.cons hzeros .nil))))
  case vectorParameter.vectorParameter =>
    obtain ⟨rfl, hdefault⟩ := hroot
    exact .of_leaf (fun _ => rfl) (fun _ => rfl) fun o => Value.upToSign_getD (o.lookup _)
      (Value.upToSign_of_equal hdefault)
  case texture.texture => exact ⟨fun _ => .nil, fun _ _ => rfl⟩
  case unary.unary =>
    obtain ⟨rfl, rfl⟩ := hroot
    exact ⟨hoperands.leaves, fun o heq => congrArg (UnaryOp.apply _) (hoperands.evaluate o heq)⟩
  case binary.binary =>
    obtain ⟨rfl, rfl⟩ := hroot
    obtain ⟨ha, hb⟩ := hoperands
    refine ⟨fun o => List.rel_append (ha.leaves o) (hb.leaves o), fun o heq => ?_⟩
    obtain ⟨ha', heq⟩ := ha.append_inj heq
    simp only [Uniform.evaluate, ha', hb.evaluate o heq]
  case clamp.clamp =>
    obtain ⟨ha, hlo, hhi⟩ := hoperands
    refine ⟨fun o => List.rel_append (ha.leaves o)
      (List.rel_append (hlo.leaves o) (hhi.leaves o)), fun o heq => ?_⟩
    obtain ⟨ha', heq⟩ := ha.append_inj heq
    obtain ⟨hlo', heq⟩ := hlo.append_inj heq
    simp only [Uniform.evaluate, ha', hlo', hhi.evaluate o heq]
  case swizzle.swizzle =>
    subst hroot
    exact ⟨hoperands.leaves, fun o heq => congrArg (Value.swizzle _) (hoperands.evaluate o heq)⟩

/-- An induction over expressions, by their operands. -/
theorem induction_operands {P : Uniform → Prop} (step : ∀ u, (∀ a ∈ u.operands, P a) → P u)
    (u : Uniform) : P u := by
  induction u <;> exact step _ (by simp [operands, *])

/-- Agreement does not depend on the order. -/
theorem identical_symm (h : u.identical v) : v.identical u := by
  induction u using induction_operands generalizing v with
  | step u ih =>
    obtain ⟨hroot, hoperands⟩ := (identical_iff u v).mp h
    refine (identical_iff v u).mpr ⟨sameRoot_comm u v ▸ hroot, .flip ?_⟩
    exact ((List.forall₂_and_left _ _).mpr ⟨ih, hoperands⟩).imp fun a b h => h.1 h.2

theorem sameRoot_trans (h : u.sameRoot v) (h' : v.sameRoot w) : u.sameRoot w := by
  cases u <;> cases v <;> simp only [sameRoot, Bool.false_eq_true] at h <;> cases w <;>
    simp only [sameRoot, Bool.and_eq_true, beq_iff_eq, Bool.false_eq_true] at h h' ⊢
  all_goals grind [Value.equal_trans, Single.equal_trans]

theorem identical_trans (h : u.identical v) (h' : v.identical w) : u.identical w := by
  induction u using induction_operands generalizing v w with
  | step u ih =>
    obtain ⟨hroot, hoperands⟩ := (identical_iff u v).mp h
    obtain ⟨hroot', hoperands'⟩ := (identical_iff v w).mp h'
    refine (identical_iff u w).mpr ⟨sameRoot_trans hroot hroot', ?_⟩
    generalize u.operands = as, v.operands = bs, w.operands = cs at ih hoperands hoperands'
    induction hoperands generalizing cs with
    | nil => simpa using hoperands'
    | cons h _ rest =>
      cases hoperands' with
      | cons h' hrest =>
        exact .cons (ih _ (by simp) h h') (rest _ (fun a ha => ih a (by simp [ha])) hrest)

theorem doesFor_of_identical (h : u.identical v) : u.DoesFor v := by
  induction u using induction_operands generalizing v with
  | step u ih =>
    obtain ⟨hroot, hoperands⟩ := (identical_iff u v).mp h
    exact .of_sameRoot hroot
      (((List.forall₂_and_left _ _).mpr ⟨ih, hoperands⟩).imp fun a b h => h.1 h.2)

end Uniform

/-! ### Records -/

theorem UniformEntry.agrees_iff :
    e.agrees f ↔ e.value.equal f.value ∧ e = { f with value := e.value } := by
  obtain ⟨⟩ := e
  simp only [agrees, Bool.and_eq_true, beq_iff_eq, mk.injEq, true_and]
  tauto

theorem UniformEntry.agrees_symm (h : e.agrees f) : f.agrees e := by
  obtain ⟨hvalue, hrest⟩ := agrees_iff.mp h
  refine agrees_iff.mpr ⟨Value.equal_comm e.value f.value ▸ hvalue, ?_⟩
  rw [hrest]

theorem UniformEntry.agrees_trans {g : UniformEntry} (h : e.agrees f) (h' : f.agrees g) :
    e.agrees g := by
  obtain ⟨hvalue, hrest⟩ := agrees_iff.mp h
  obtain ⟨hvalue', hrest'⟩ := agrees_iff.mp h'
  refine agrees_iff.mpr ⟨Value.equal_trans hvalue hvalue', hrest.trans ?_⟩
  rw [hrest']

namespace UniformRecord

mutual

/-- The numbers that a record is computed from: its literals, and its parameters as the overrides
leave them. -/
def leaves (overrides : Overrides) : UniformRecord → List Value
  | mk _ e args =>
    match e.kind with
    | .constant => [e.value]
    | .parameter => [(overrides.lookup e.name).getD e.value]
    | .operation => leavesAll overrides args
    | _ => []

/-- The numbers that arguments are computed from. -/
def leavesAll (overrides : Overrides) : List (Option UniformRecord) → List Value
  | [] => []
  | none :: rest => leavesAll overrides rest
  | some a :: rest => a.leaves overrides ++ leavesAll overrides rest

end

/-- One record does for another: their numbers differ in the signs of zeros at most, and if they do
not differ, nor do their values. -/
structure DoesFor (r s : UniformRecord) : Prop where
  leaves : ∀ o, List.Forall₂ Value.UpToSign (r.leaves o) (s.leaves o)
  evaluate : ∀ o, r.leaves o = s.leaves o → r.evaluate o = s.evaluate o

@[refl] theorem DoesFor.refl (r : UniformRecord) : r.DoesFor r :=
  ⟨fun _ => List.forall₂_same.mpr fun _ _ => .refl _, fun _ _ => rfl⟩

/-- Records that are told apart by their numbers. With a record there are its arguments. -/
structure IsStore (S : UniformRecord → Prop) : Prop where
  args : ∀ {n e args}, S (mk n e args) → ∀ a, some a ∈ args → S a
  numbered : ∀ {n e f as bs}, S (mk n e as) → S (mk n f bs) → e = f ∧ as = bs

mutual

/-- Agreement does not depend on the order. -/
theorem identical_comm : ∀ r s : UniformRecord, r.identical s = s.identical r
  | mk m e as, mk n f bs => by
    have hagrees : e.agrees f = f.agrees e :=
      Bool.eq_iff_iff.mpr ⟨UniformEntry.agrees_symm, UniformEntry.agrees_symm⟩
    simp only [identical, areIdentical_comm as bs, hagrees, BEq.comm (a := m)]

theorem areIdentical_comm : ∀ as bs, areIdentical as bs = areIdentical bs as
  | [], [] => rfl
  | none :: as, none :: bs => by simp only [areIdentical, areIdentical_comm as bs]
  | some a :: as, some b :: bs => by
    simp only [areIdentical, identical_comm a b, areIdentical_comm as bs]
  | [], none :: _ | [], some _ :: _ | none :: _, [] | some _ :: _, []
  | none :: _, some _ :: _ | some _ :: _, none :: _ => by simp [areIdentical]

end

variable {S : UniformRecord → Prop}

mutual

/-- A store in which records agree through a third. -/
theorem identical_trans (hS : IsStore S) : ∀ {r s t : UniformRecord}, S r → S s → S t →
    r.identical s → s.identical t → r.identical t
  | mk l e as, mk m f bs, mk n g cs, hr, hs, ht, h, h' => by
    simp only [identical, Bool.or_eq_true, beq_iff_eq, Bool.and_eq_true] at h h' ⊢
    rcases h with rfl | ⟨hagrees, hargs⟩
    · obtain ⟨rfl, rfl⟩ := hS.numbered hr hs
      exact h'
    rcases h' with rfl | ⟨hagrees', hargs'⟩
    · obtain ⟨rfl, rfl⟩ := hS.numbered hs ht
      exact .inr ⟨hagrees, hargs⟩
    exact .inr ⟨UniformEntry.agrees_trans hagrees hagrees',
      areIdentical_trans hS (hS.args hr) (hS.args hs) (hS.args ht) hargs hargs'⟩

theorem areIdentical_trans (hS : IsStore S) : ∀ {as bs cs : List (Option UniformRecord)},
    (∀ a, some a ∈ as → S a) → (∀ b, some b ∈ bs → S b) → (∀ c, some c ∈ cs → S c) →
    areIdentical as bs → areIdentical bs cs → areIdentical as cs
  | [], [], [], _, _, _, _, _ => rfl
  | none :: as, none :: bs, none :: cs, has, hbs, hcs, h, h' =>
    @areIdentical_trans hS as bs cs (fun a ha => has a (by simp [ha]))
      (fun b hb => hbs b (by simp [hb])) (fun c hc => hcs c (by simp [hc])) h h'
  | some a :: as, some b :: bs, some c :: cs, has, hbs, hcs, h, h' => by
    simp only [areIdentical, Bool.and_eq_true] at h h' ⊢
    exact ⟨identical_trans hS (has a (by simp)) (hbs b (by simp)) (hcs c (by simp)) h.1 h'.1,
      areIdentical_trans hS (fun a ha => has a (by simp [ha])) (fun b hb => hbs b (by simp [hb]))
        (fun c hc => hcs c (by simp [hc])) h.2 h'.2⟩

end

mutual

theorem doesFor_of_identical (hS : IsStore S) : ∀ {r s : UniformRecord}, S r → S s →
    r.identical s → r.DoesFor s
  | mk m e as, mk n f bs, hr, hs, h => by
    simp only [identical, Bool.or_eq_true, beq_iff_eq, Bool.and_eq_true] at h
    rcases h with rfl | ⟨hagrees, hargs⟩
    · obtain ⟨rfl, rfl⟩ := hS.numbered hr hs
      exact .refl _
    obtain ⟨hvalue, hentry⟩ := UniformEntry.agrees_iff.mp hagrees
    have hzeros := Value.upToSign_of_equal hvalue
    obtain ⟨hleaves, hevaluate⟩ := leavesAll_of_areIdentical hS (hS.args hr) (hS.args hs) hargs
    have hkind : e.kind = f.kind := by rw [hentry]; rfl
    have hname : e.name = f.name := by rw [hentry]
    have hoperate : operate e = operate f := by rw [hentry]; rfl
    constructor
    · intro o
      unfold leaves
      rw [hkind, hname]
      split
      · exact .cons hzeros .nil
      · exact .cons (Value.upToSign_getD _ hzeros) .nil
      · exact hleaves o
      · exact .nil
    · intro o heq
      simp only [UniformRecord.leaves, hkind, hname] at heq
      simp only [UniformRecord.evaluate, hkind, hname, hoperate]
      cases hcase : f.kind with
      | constant => simpa [hcase] using heq
      | parameter => simpa [hcase] using heq
      | operation => exact congrArg (operate f) (hevaluate o (by simpa [hcase] using heq))
      | texture | unlisted => rfl

theorem leavesAll_of_areIdentical (hS : IsStore S) : ∀ {as bs : List (Option UniformRecord)},
    (∀ a, some a ∈ as → S a) → (∀ b, some b ∈ bs → S b) → areIdentical as bs →
    (∀ o, List.Forall₂ Value.UpToSign (leavesAll o as) (leavesAll o bs)) ∧
      ∀ o, leavesAll o as = leavesAll o bs → evaluateAll o as = evaluateAll o bs
  | [], [], _, _, _ => ⟨fun _ => .nil, fun _ _ => rfl⟩
  | none :: as, none :: bs, has, hbs, h => by
    obtain ⟨hleaves, hevaluate⟩ := @leavesAll_of_areIdentical hS as bs
      (fun a ha => has a (by simp [ha])) (fun b hb => hbs b (by simp [hb])) h
    exact ⟨hleaves, fun o heq => congrArg (_ :: ·) (hevaluate o heq)⟩
  | some a :: as, some b :: bs, has, hbs, h => by
    simp only [areIdentical, Bool.and_eq_true] at h
    have hfirst := doesFor_of_identical hS (has a (by simp)) (hbs b (by simp)) h.1
    obtain ⟨hleaves, hevaluate⟩ := leavesAll_of_areIdentical hS (fun a ha => has a (by simp [ha]))
      (fun b hb => hbs b (by simp [hb])) h.2
    refine ⟨fun o => List.rel_append (hfirst.leaves o) (hleaves o), fun o heq => ?_⟩
    obtain ⟨heq, hrest⟩ := List.append_inj heq (hfirst.leaves o).length_eq
    simp only [evaluateAll, hfirst.evaluate o heq, hevaluate o hrest]

end

end UniformRecord

/-! ### Replacing -/

theorem Uniform.DoesFor.of_standsFor {u v : Uniform} (h : u.StandsFor v) : u.DoesFor v := by
  rcases h with rfl | ⟨hroot, hoperands⟩
  · exact .refl u
  · exact .of_sameRoot hroot (hoperands ▸ List.forall₂_same.mpr fun _ _ => .refl _)

open Pass in
/-- **Identical expressions.** Identity is symmetric and transitive, of expressions and of records
that are told apart by their numbers. What is identical to an expression or a record does for it:
only signs of zeros can differ in the numbers that the overrides leave, and if none does, the values
are the same. And so does the entry that code stands for, if an expression over entries of a table
is looked up in any state that a compilation reaches. -/
theorem Uniform.identical_doesFor (u v w : Uniform) :
    (u.identical v = v.identical u ∧ (u.identical v → v.identical w → u.identical w) ∧
      (u.identical v → u.DoesFor v)) ∧
    (∀ S, UniformRecord.IsStore S →
      (∀ r s : UniformRecord, r.identical s = s.identical r) ∧
      (∀ r s t, S r → S s → S t → r.identical s → s.identical t → r.identical t) ∧
      ∀ r s, S r → S s → r.identical s → r.DoesFor s) ∧
    ∀ (ctx : Context) (p q : Pass) (arguments : List SharedUniform) (type : ValueType)
      (digest : Digest) (text : String) (i : Nat), Reaches {} p → ctx.scope < p.scopes.length →
      u.IsOver arguments p.uniforms →
      ctx.emitUniform u (arguments.map (·.id)) type digest text p = .ok (some i) q →
      ∃ d e, (q.scope ctx.scope)[i]? = some d ∧ d.uniform? = some e ∧ e.expr.DoesFor u := by
  refine ⟨⟨?_, identical_trans, doesFor_of_identical⟩,
    fun S hS => ⟨UniformRecord.identical_comm, fun r s t => UniformRecord.identical_trans hS,
      fun r s => UniformRecord.doesFor_of_identical hS⟩, ?_⟩
  · exact Bool.eq_iff_iff.mpr ⟨identical_symm, identical_symm⟩
  · intro ctx p q arguments type digest text i hp hscope hover hrun
    have hrefers := Context.emitUniform_refers (hp.sound ready_init.sound) hscope hover type digest
      text _ q hrun
    obtain ⟨d, hd, -, e, he, hstandsFor⟩ := hrefers i rfl
    exact ⟨d, e, hd, he, .of_standsFor hstandsFor⟩

/-- One over a parameter with a default. -/
def Uniform.overGain (default : Single) : Uniform :=
  .binary .div .float (.constant (.replicate .one) .float) (.scalarParameter "Gain" default)

/-- A default that is overridden may have any zero. -/
theorem Uniform.identical_doesFor_overridden :
    (overGain .zero).identical (overGain (.signedZero true)) ∧
      (overGain .zero).evaluate [("Gain", .replicate .two)] =
        (overGain (.signedZero true)).evaluate [("Gain", .replicate .two)] := by
  have hidentical : (overGain .zero).identical (overGain (.signedZero true)) := by decide
  obtain ⟨⟨-, -, hdoesFor⟩, -⟩ := identical_doesFor (overGain .zero) (overGain (.signedZero true))
    (overGain .zero)
  exact ⟨hidentical, (hdoesFor hidentical).evaluate _ rfl⟩

open Pass in
/-- Without an override the quotient is infinite, and its sign is that of the zero. All the same the
two are identical, and a parameter that has minus zero for its default gets the code of the one with
zero. -/
theorem Uniform.identical_minusZero :
    (overGain .zero).identical (overGain (.signedZero true)) ∧
      (overGain .zero).evaluate [] = .replicate (.infinity false) ∧
      (overGain (.signedZero true)).evaluate [] = .replicate (.infinity true) ∧
      ∃ p q r c, newScope {} = .ok 0 p ∧
        parameterReader.scalarParameter "Gain" .zero p = .ok c q ∧
        parameterReader.scalarParameter "Gain" (.signedZero true) q = .ok c r :=
  ⟨by decide, by decide +kernel, by decide +kernel, _, _, _, _, rfl, rfl, rfl⟩

end ShaderGraph
