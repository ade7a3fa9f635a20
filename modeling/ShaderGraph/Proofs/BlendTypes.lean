import ShaderGraph.Proofs.StableCasts

/-!
# Types of interpolations

An interpolation between two inputs has their common type. Only if it is by a literal zero or one it
has the type of the input that it picks, which may be narrower, and may be given even if there is no
common type (`Context.lerp_type`). Like every temporary, an interpolation is also found if it is
there already, with the type that it was asked for with at that time.
-/

namespace ShaderGraph

open Pass

/-- Whether an interpolation by a chunk is one by the given number: a literal that is read as a
scalar. -/
def Chunk.picks (alpha : Chunk) (type : ValueType) (w : Single) : Bool :=
  (alpha.type != type || type == .float1) &&
    alpha.folded?.any fun u => (u.expr.evaluate []).x.equal w

namespace Context

variable {ctx : Context} {x y alpha c : Code} {dx dy da d : Chunk} {p q : Pass}

/-- The type of an arithmetic expression, which is unknown if there is none. -/
def common (s t : ValueType) : ValueType := (arithmeticType s t).toOption.getD .unknown

theorem commonType_stock (s t : ValueType) :
    p.Gives (ctx.commonType s t) fun type q => type = common s t ∧ q.stock = p.stock := by
  unfold commonType common
  cases arithmeticType s t with
  | ok type => exact .pure ⟨rfl, rfl⟩
  | error problem =>
    obtain ⟨q, hq, hstock⟩ := ctx.report_eq problem p
    exact .read hq (.pure ⟨rfl, hstock⟩)

/-- To read a text takes no temporary, and no scope. -/
theorem textOf_takes (c : Code) : p.Gives (ctx.textOf c) fun _ q =>
    q.nextTemporary = p.nextTemporary ∧ q.scopes.length = p.scopes.length := by
  cases c with
  | none => exact .pure ⟨rfl, rfl⟩
  | some i =>
    refine (chunk_gives i).bind fun d q hread => ?_
    obtain ⟨rfl, hd⟩ := hread
    split
    · refine (readSlot_gives i).bind fun c r hslot => ?_
      obtain ⟨_, _, _, -, -, -, rfl, rfl⟩ := hslot
      refine (chunk_gives _).bind fun _ r' hread => .pure ?_
      rw [hread.1]
      exact ⟨rfl, length_scopes_append ..⟩
    · exact .pure ⟨rfl, rfl⟩

theorem widened_takes (c : Code) (target : ValueType) : p.Gives (ctx.widened c target) fun _ q =>
    q.nextTemporary = p.nextTemporary ∧ q.scopes.length = p.scopes.length := by
  refine Gives.bind (Q := fun _ q => q = p) ?_ fun source q hq => ?_
  · cases c with
    | none => exact .pure rfl
    | some i => exact (chunk_gives i).bind fun _ _ h => .pure h.1
  subst hq
  split
  · exact textOf_takes c
  split
  · refine (textOf_takes c).bind fun text r hr => ?_
    split
    · exact .pure hr
    split <;> exact .pure hr
  · refine (textOf_takes c).bind fun text r hr => ?_
    obtain ⟨r', hreport, hstock⟩ := ctx.report_eq (.coercion text source target) r
    refine .read hreport (.pure ⟨?_, ?_⟩)
    · exact (congrArg Stock.nextTemporary hstock).trans hr.1
    · exact (congrArg (·.scopes.length) hstock).trans hr.2

/-- A temporary is of the type that it is asked for with, unless it is there already. -/
theorem emitTemporary_type {type : ValueType} {text : String} :
    p.Gives (ctx.emitTemporary type text) fun c q => ∀ i, c = some i → ctx.scope < p.scopes.length →
      ∃ d, (q.scope ctx.scope)[i]? = some d ∧ (d.type = type ∨
        q = p ∧ d.digest = Digest.ofText text 0 ∧ d.text = text) := by
  refine (emitWith_gives _ type text).mono fun c q hc i hi hplaced => ?_
  obtain ⟨-, ⟨j, d, rfl, rfl, hd, htext⟩ | ⟨rfl, rfl⟩⟩ | ⟨-, rfl, -⟩ := hc
  · cases hi
    exact ⟨d, hd, .inr ⟨rfl, htext⟩⟩
  · cases hi
    exact ⟨_, getElem?_append (p := { p with nextTemporary := _ }) hplaced _, .inl rfl⟩
  · cases hi

/-- The type of an interpolation between two inputs. -/
def blendType (x y alpha : Chunk) : ValueType :=
  let type := common x.type y.type
  if alpha.picks type .zero then x.type else if alpha.picks type .one then y.type else type

/-- What is known of an interpolation: its type, unless it is there already. -/
def Blends (ctx : Context) (dx dy da : Chunk) (p : Pass) (c : Code) (q : Pass) : Prop :=
  ∀ i, c = some i → ∃ d, (q.scope ctx.scope)[i]? = some d ∧ (d.type = blendType dx dy da ∨
    blendType dx dy da = common dx.type dy.type ∧ q.nextTemporary = p.nextTemporary ∧
      d.digest = Digest.ofText d.text 0 ∧ ∃ s t r, d.text = Text.fill "lerp(%s,%s,%s)" [s, t, r])

theorem lerpText_gives {r : Pass} {i : Nat} (hd : (r.scope ctx.scope)[i]? = some d)
    (hnext : r.nextTemporary = p.nextTemporary)
    (hblend : blendType dx dy da = common dx.type dy.type) (alphaType : ValueType) :
    r.Gives (do
      let s ← ctx.widened x (common dx.type dy.type)
      let t ← ctx.widened y (common dx.type dy.type)
      let r ← ctx.widened alpha alphaType
      ctx.emitTemporary (common dx.type dy.type) (Text.fill "lerp(%s,%s,%s)" [s, t, r]))
      (ctx.Blends dx dy da p) := by
  refine (widened_takes x _).bind fun s r₁ h₁ => ?_
  refine (widened_takes y _).bind fun t r₂ h₂ => ?_
  refine (widened_takes alpha _).bind fun u r₃ h₃ => ?_
  have hplaced : ctx.scope < r₃.scopes.length := by
    rw [h₃.2, h₂.2, h₁.2]
    exact lt_of_getElem?_scope hd
  refine emitTemporary_type.mono fun c q hq i hi => ?_
  obtain ⟨d, hd, htype | ⟨rfl, hdigest, htext⟩⟩ := hq i hi hplaced
  · exact ⟨d, hd, .inl (htype.trans hblend.symm)⟩
  · refine ⟨d, hd, .inr ⟨hblend, ?_, htext ▸ hdigest, s, t, u, htext⟩⟩
    rw [h₃.1, h₂.1, h₁.1, hnext]

theorem lerp_gives (hx : ctx.Sees x dx p) (hy : ctx.Sees y dy p)
    (halpha : ctx.Sees alpha da p) (hfloat : dx.type.isFloat) :
    p.Gives (ctx.lerp x y alpha) (ctx.Blends dx dy da p) := by
  have hself : common dx.type dx.type = dx.type := by
    simp [common, arithmeticType, isNumeric, hfloat, Except.toOption]
  have htx := typeOf_eq hx
  have hty := typeOf_eq hy
  have hcx := constantOf_eq hx
  have hcy := constantOf_eq hy
  obtain ⟨ix, rfl, hdx⟩ := hx
  obtain ⟨iy, rfl, hdy⟩ := hy
  obtain ⟨ia, rfl, hda⟩ := halpha
  unfold lerp
  rw [if_neg (by simp)]
  split
  case isTrue hsame =>
    cases hsame
    cases hdx.symm.trans hdy
    refine .pure fun i hi => ⟨dx, Option.some.inj hi ▸ hdx, .inl ?_⟩
    simp [blendType, hself]
  refine .read htx (.read hty (.read hcx (.read hcy ?_)))
  split
  case isTrue hequal =>
    have htype : dx.type = dy.type := by simpa using (Bool.and_eq_true_iff.1 hequal).2
    refine .pure fun i hi => ⟨dx, Option.some.inj hi ▸ hdx, .inl ?_⟩
    simp [blendType, ← htype, hself]
  refine (commonType_stock dx.type dy.type).bind fun type r ⟨htype, hstock⟩ => ?_
  have hscope := congrFun (scope_of_stock_eq hstock) ctx.scope
  rw [← hscope] at hdx hdy hda
  refine .read (typeOf_eq ⟨ia, rfl, hda⟩) (.read (constantOf_eq ⟨ia, rfl, hda⟩) ?_)
  subst htype
  have hnext : r.nextTemporary = p.nextTemporary := congrArg Stock.nextTemporary hstock
  cases hfolded : da.folded? with
  | none => exact lerpText_gives hdx hnext (by simp [blendType, Chunk.picks, hfolded]) _
  | some u =>
    dsimp only [Option.map_some]
    by_cases hscalar : da.type = common dx.type dy.type ∧ common dx.type dy.type ≠ .float1
    · have hpicks : ∀ w, da.picks (common dx.type dy.type) w = false := fun w => by
        simp [Chunk.picks, hscalar]
      rw [if_pos hscalar.1, if_pos (by simpa using hscalar.2)]
      exact lerpText_gives hdx hnext (by simp [blendType, hpicks]) _
    · have hwide : (da.type != common dx.type dy.type || common dx.type dy.type == .float1) =
          true := by
        simpa [or_iff_not_imp_left] using hscalar
      have hpicks : ∀ w, da.picks (common dx.type dy.type) w = (u.expr.evaluate []).x.equal w :=
        fun w => by simp [Chunk.picks, hfolded, hwide]
      have hread : (if da.type = common dx.type dy.type then common dx.type dy.type else .float1) =
          .float1 := by
        split
        · exact not_not.1 fun hne => hscalar ⟨‹_›, hne⟩
        · rfl
      rw [hread, if_neg (by simp)]
      by_cases hzero : (u.expr.evaluate []).x.equal .zero
      · rw [if_pos hzero]
        refine .pure fun i hi => ⟨dx, Option.some.inj hi ▸ hdx, .inl ?_⟩
        simp [blendType, hpicks, hzero]
      rw [if_neg hzero]
      by_cases hone : (u.expr.evaluate []).x.equal .one
      · rw [if_pos hone]
        refine .pure fun i hi => ⟨dy, Option.some.inj hi ▸ hdy, .inl ?_⟩
        simp [blendType, hpicks, hzero, hone]
      · rw [if_neg hone]
        exact lerpText_gives hdx hnext (by simp [blendType, hpicks, hzero, hone]) _

/-- **The type of an interpolation** between two inputs of float types is their common type, unless
it is by a literal zero or one, and then it is that of the input which it picks. A temporary that is
found instead of a new one has the text of an interpolation, and the type it was made with. -/
theorem lerp_type {i : Nat} (hx : ctx.Sees x dx p) (hy : ctx.Sees y dy p)
    (halpha : ctx.Sees alpha da p) (hfloat : dx.type.isFloat)
    (h : ctx.lerp x y alpha p = .ok (some i) q) :
    ∃ d, (q.scope ctx.scope)[i]? = some d ∧ (d.type = blendType dx dy da ∨
      blendType dx dy da = common dx.type dy.type ∧ q.nextTemporary = p.nextTemporary ∧
        d.digest = Digest.ofText d.text 0 ∧
          ∃ s t r, d.text = Text.fill "lerp(%s,%s,%s)" [s, t, r]) :=
  lerp_gives hx hy halpha hfloat _ _ h i rfl

/-- The context of a stage in which nothing is compiled yet. -/
def blank : Context where
  env := ⟨{}, {}⟩
  stage := .pixel
  scope := 3

/-- The chunks of a scalar, a vector, and a literal. -/
def blendInputs (w : Single) : Pass :=
  final ((do
    let _ ← blank.constant1 .half
    let _ ← blank.constant3 .one .two .half
    blank.constant1 w) opened)

set_option maxRecDepth 100000 in
/-- An interpolation between a scalar and a vector by a tenth is a vector. -/
theorem lerp_type_tenth : ∃ q d, blank.lerp (some 0) (some 1) (some 2) (blendInputs .tenth) =
    .ok (some 3) q ∧ (q.scope 3)[3]? = some d ∧ d.type = .float3 := by
  let p := blendInputs .tenth
  obtain ⟨dx, hx⟩ : ∃ d, blank.Sees (some 0) d p ∧ d.type = .float := ⟨_, ⟨0, rfl, rfl⟩, rfl⟩
  obtain ⟨dy, hy⟩ : ∃ d, blank.Sees (some 1) d p ∧ d.type = .float3 := ⟨_, ⟨1, rfl, rfl⟩, rfl⟩
  obtain ⟨da, ha⟩ : ∃ d, blank.Sees (some 2) d p ∧
      d.picks .float3 .zero = false ∧ d.picks .float3 .one = false :=
    ⟨_, ⟨2, rfl, rfl⟩, by decide +kernel, by decide +kernel⟩
  obtain ⟨q, hq, hnext⟩ : ∃ q, blank.lerp (some 0) (some 1) (some 2) (blendInputs .tenth) =
      .ok (some 3) q ∧ q.nextTemporary = 1 := ⟨_, rfl, rfl⟩
  have hblend : blendType dx dy da = .float3 := by
    have hcommon : common .float .float3 = .float3 := by decide
    simp [blendType, hx.2, hy.2, hcommon, ha.2]
  obtain ⟨d, hd, htype | ⟨-, hsame, -⟩⟩ := lerp_type hx.1 hy.1 ha.1 (by rw [hx.2]; decide) hq
  · exact ⟨q, d, hq, hd, htype.trans hblend⟩
  · rw [hnext] at hsame
    exact absurd hsame (by decide +kernel)

/-- An interpolation by zero between a scalar and a vector is the scalar, with the type of it. -/
theorem lerp_zero_scalar : ∃ q dx dy, blank.lerp (some 0) (some 1) (some 2) (blendInputs .zero) =
      .ok (some 0) q ∧ (q.scope 3)[0]? = some dx ∧ (q.scope 3)[1]? = some dy ∧
        dx.type = .float ∧ common dx.type dy.type = .float3 :=
  ⟨_, _, _, rfl, rfl, rfl, by decide, by decide⟩

end Context

end ShaderGraph
