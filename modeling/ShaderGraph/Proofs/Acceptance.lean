import ShaderGraph.Proofs.KeptChunks
import ShaderGraph.Proofs.Phases

/-!
# What operations accept when they fold

An operation on uniform expressions is folded, and otherwise its text is emitted. The two ways have
checks of their own. On operands of float types they mostly agree: an operation is refused on one
way if and only if it is refused on the other. There are two exceptions (`FoldedOperation.verdict`).

* The operations that take their type from the first operand check the others only when they need
  their texts. They need no text for expressions that are not literals.
* The cross product of expressions only asks for a common type other than that of two components,
  and its text asks for three components.
-/

namespace ShaderGraph

open Pass

/-- How an operation goes about its operands. -/
inductive Route where
  /-- All are literals, and so is the result. -/
  | literals
  /-- All are uniform expressions, and the result has no text. -/
  | uniforms
  /-- The text of the result is emitted. -/
  | code
deriving DecidableEq

namespace Route

/-- How an operation goes about the given chunks. -/
def of (operands : List Chunk) : Route :=
  if operands.all (·.folded?.isSome) then literals
  else if operands.all (·.uniform?.isSome) then uniforms else code

/-- Whether the texts of the operands are read. -/
def reads : Route → Bool
  | uniforms => false
  | _ => true

end Route

theorem Chunk.isSome_folded? {d : Chunk} {u : SharedUniform} (h : d.uniform? = some u) :
    d.folded?.isSome = u.expr.isConstant := by
  simp only [folded?, h, Option.filter_some]
  cases u.expr.isConstant <;> rfl

namespace Route

variable {ds : List Chunk}

theorem of_uniforms (h : ∀ d ∈ ds, d.uniform?.isSome) :
    of ds = if ds.all (·.folded?.isSome) then literals else uniforms := by
  unfold of
  rw [if_pos (List.all_eq_true.mpr h)]

theorem of_ne_code (h : ∀ d ∈ ds, d.uniform?.isSome) : of ds ≠ code := by
  rw [of_uniforms h]
  split <;> decide

/-- The texts of uniform expressions are read if all are literals. -/
theorem reads_of_uniforms (h : ∀ d ∈ ds, d.uniform?.isSome) :
    (of ds).reads = ds.all (·.folded?.isSome) := by
  rw [of_uniforms h]
  split
  · rename_i hall
    exact hall.symm
  · rename_i hall
    exact (eq_false_of_ne_true hall).symm

theorem of_code {d : Chunk} (hd : d ∈ ds) (h : d.uniform? = none) : of ds = code := by
  have hfolded : d.folded?.isSome = false := by
    unfold Chunk.folded?
    rw [h]
    rfl
  unfold of
  rw [if_neg, if_neg]
  · exact fun hall => absurd (List.all_eq_true.mp hall d hd) (by simp [h])
  · exact fun hall => absurd (List.all_eq_true.mp hall d hd) (by simp [hfolded])

theorem of_pair {da db : Chunk}
    (h : ∀ u v, da.uniform? = some u → db.uniform? = some v → False) : of [da, db] = code := by
  cases hu : da.uniform? with
  | none => exact of_code (by simp) hu
  | some u =>
    cases hv : db.uniform? with
    | none => exact of_code (d := db) (by simp) hv
    | some v => exact (h u v hu hv).elim

theorem of_triple {da db dc : Chunk}
    (h : ∀ u v w, da.uniform? = some u → db.uniform? = some v → dc.uniform? = some w → False) :
    of [da, db, dc] = code := by
  cases hu : da.uniform? with
  | none => exact of_code (by simp) hu
  | some u =>
    cases hv : db.uniform? with
    | none => exact of_code (d := db) (by simp) hv
    | some v =>
      cases hw : dc.uniform? with
      | none => exact of_code (d := dc) (by simp) hw
      | some w => exact (h u v w hu hv hw).elim

end Route

namespace Context

/-! ### Steps that come to an end -/

/-- Code can be emitted in the scope, and what is reported is not held back. -/
structure Listens (ctx : Context) (p : Pass) : Prop where
  unfinished : p.finished = false
  placed : ctx.scope < p.scopes.length
  audible : p.sink = none

/-- Where code can be emitted and reports are not held back, the step ends without a fault, and so
that this is still the case. Chunks stay where they are, and there are diagnostics at its end if
there were some before or if it reports one. -/
def Lands (ctx : Context) (p : Pass) {α : Type} (m : PassM α) (reports : Bool)
    (Q : α → Pass → Prop) : Prop :=
  ctx.Listens p → ∃ a q, m p = .ok a q ∧ ctx.Listens q ∧ p.Prolongs q ∧
    q.diagnostics.isEmpty = (p.diagnostics.isEmpty && !reports) ∧ Q a q

/-- The step ends without a fault. -/
abbrev Settles (ctx : Context) (p : Pass) {α : Type} (m : PassM α) (reports : Bool) : Prop :=
  ctx.Lands p m reports fun _ _ => True

variable {ctx : Context} {p q : Pass} {α β : Type} {m : PassM α} {f : α → PassM β}
variable {Q : α → Pass → Prop} {S : β → Pass → Prop} {r s : Bool}
variable {u : Uniform} {arguments : List SharedUniform} {pattern : String}
variable {operands : PassM (List String)} {type target : ValueType}

namespace Lands

theorem of_eq {a : α} (h : m p = .ok a q) (hq : ctx.Listens p → ctx.Listens q)
    (hle : p.Prolongs q) (hd : q.diagnostics = p.diagnostics) (ha : Q a q) :
    ctx.Lands p m false Q :=
  fun hp => ⟨a, q, h, hq hp, hle, by simp [hd], ha⟩

theorem pure {a : α} (ha : Q a p) : ctx.Lands p (pure a) false Q :=
  of_eq rfl id (.refl p) rfl ha

theorem bind (hm : ctx.Lands p m r Q)
    (hf : ∀ a q, p.Prolongs q → Q a q → ctx.Lands q (f a) s S) :
    ctx.Lands p (m >>= f) (r || s) S := by
  intro hp
  obtain ⟨a, q, hmp, hq, hle, hd, ha⟩ := hm hp
  obtain ⟨b, q', hfa, hq', hle', hd', hb⟩ := hf a q hle ha hq
  refine ⟨b, q', (bind_of_ok hmp).trans hfa, hq', hle.trans hle', ?_, hb⟩
  rw [hd', hd, Bool.not_or, Bool.and_assoc]

/-- A step that reports nothing. -/
theorem quiet (hm : ctx.Lands p m false Q)
    (hf : ∀ a q, p.Prolongs q → Q a q → ctx.Lands q (f a) s S) :
    ctx.Lands p (m >>= f) s S := hm.bind hf

/-- What follows reports nothing. -/
theorem last (hm : ctx.Lands p m r Q)
    (hf : ∀ a q, p.Prolongs q → Q a q → ctx.Lands q (f a) false S) :
    ctx.Lands p (m >>= f) r S := Bool.or_false r ▸ hm.bind hf

theorem read {a : α} (h : m p = .ok a p) (hf : ctx.Lands p (f a) s S) :
    ctx.Lands p (m >>= f) s S := by
  intro hp
  obtain ⟨b, q, hfa, hrest⟩ := hf hp
  exact ⟨b, q, (bind_of_ok h).trans hfa, hrest⟩

theorem get_bind {f : Pass → PassM β} (hf : ctx.Lands p (f p) s S) :
    ctx.Lands p (get >>= f) s S := hf

theorem mono {Q' : α → Pass → Prop} (hm : ctx.Lands p m r Q) (h : ∀ a q, Q a q → Q' a q) :
    ctx.Lands p m r Q' := by
  intro hp
  obtain ⟨a, q, hmp, hq, hle, hd, ha⟩ := hm hp
  exact ⟨a, q, hmp, hq, hle, hd, h a q ha⟩

theorem settles (hm : ctx.Lands p m r Q) : ctx.Settles p m r := hm.mono fun _ _ _ => trivial

end Lands

/-! ### Emission -/

theorem report_lands (problem : Problem) :
    ctx.Lands p (ctx.report problem) true fun c _ => c = none := by
  intro hp
  let d : Diagnostic := ⟨(ctx.location p).1 ++ problem.message, (ctx.location p).2, problem.kind⟩
  obtain ⟨log, -, h⟩ := addDiagnostic_eq d p
  have hreport : ctx.report problem p = .ok none { p.withReport d with log := log } := by
    unfold report
    rw [get_bind_eq, hp.audible]
    exact bind_of_ok h
  refine ⟨_, _, hreport, ⟨hp.unfinished, hp.placed, hp.audible⟩, .of_stock_eq rfl, ?_, rfl⟩
  simpa using p.diagnostics_withReport_ne_nil d

theorem push_lands (d : Chunk) :
    ctx.Lands p (ctx.push d) false fun c q => ctx.Sees c d q := by
  intro hp
  refine Lands.of_eq (a := some (p.scope ctx.scope).length) (q := p.append ctx.scope d) rfl
    (fun hp => ⟨hp.unfinished, ?_, hp.audible⟩) (.append p ctx.scope d) rfl
    (sees_append hp.placed d) hp
  simpa using hp.placed

/-- Code can only be emitted before it is fixed. -/
theorem checkOpen_lands {n : PassM β} (h : ctx.Lands p n s S) :
    ctx.Lands p (ctx.checkOpen >>= fun _ => n) s S :=
  fun hp => Lands.read (checkOpen_eq hp.unfinished) h hp

theorem emitInline_lands (htype : type ≠ .unknown) (text : String) :
    ctx.Lands p (ctx.emitInline type text) false fun c q =>
      ∃ d, ctx.Sees c d q ∧ d.type = type := by
  refine checkOpen_lands ?_
  rw [if_neg htype]
  exact (push_lands _).mono fun _ _ h => ⟨_, h, rfl⟩

theorem emitInline_quiet (type : ValueType) (text : String) :
    ctx.Settles p (ctx.emitInline type text) false := by
  by_cases htype : type = .unknown
  · refine checkOpen_lands ?_
    rw [if_pos htype]
    exact .pure trivial
  · exact (emitInline_lands htype text).settles

theorem emitWith_lands (digest : Digest) (htype : type ∈ ValueType.unknown :: ValueType.floats)
    (text : String) : ctx.Settles p (ctx.emitWith digest type text) false := by
  have hkept : ∀ t ∈ ValueType.unknown :: ValueType.floats, t = .unknown ∨ t.isFloat := by decide
  refine checkOpen_lands ?_
  split
  · exact .pure trivial
  rename_i hknown
  rw [if_pos (by simp [(hkept type htype).resolve_left hknown])]
  refine .read (rfl : ctx.chunks p = .ok (p.scope ctx.scope) p) ?_
  split
  · exact .pure trivial
  · intro hp
    obtain ⟨c, q, h, hq, hle, hd, -⟩ := push_lands
      ⟨digest, text, type, .temporary p.nextTemporary⟩
      (⟨hp.unfinished, hp.placed, hp.audible⟩ :
        ctx.Listens { p with nextTemporary := p.nextTemporary + 1 })
    exact ⟨c, q, h, hq, hle, hd, trivial⟩

theorem emitTemporary_lands (htype : type ∈ ValueType.floats) (text : String) :
    ctx.Settles p (ctx.emitTemporary type text) false :=
  emitWith_lands _ (List.mem_cons_of_mem _ htype) _

/-- No expression of a float type is refused. -/
theorem emitUniform_lands (u : Uniform) (arguments : List Nat)
    (htype : type ∈ ValueType.unknown :: ValueType.floats) (digest : Digest) (text : String) :
    ctx.Settles p (ctx.emitUniform u arguments type digest text) false := by
  have hkept : ∀ t ∈ ValueType.unknown :: ValueType.floats, t.isTexture = false ∧
      t ≠ .textureExternal ∧ t ≠ .staticBool ∧ t ≠ .materialAttributes := by decide
  obtain ⟨htexture, hexternal, hstatic, hattributes⟩ := hkept type htype
  unfold emitUniform
  simp only [htexture, hexternal, hstatic, hattributes, decide_false, Bool.false_and,
    Bool.false_eq_true, if_false]
  split
  · exact .pure trivial
  refine .get_bind ?_
  split
  · refine .read (rfl : ctx.chunks p = .ok (p.scope ctx.scope) p) ?_
    split
    · exact .pure trivial
    · exact (push_lands _).settles
  · refine (push_lands _).quiet fun c q _ _ => ?_
    exact .of_eq rfl (fun hq => ⟨hq.unfinished, hq.placed, hq.audible⟩) (fun _ => List.prefix_rfl)
      rfl trivial

/-- The operands of a folded expression are read only if it is a literal. -/
theorem emitMath_lands (htype : type ∈ ValueType.unknown :: ValueType.floats)
    (hoperands : ctx.Settles p operands r) :
    ctx.Settles p (ctx.emitMath u arguments type pattern operands) (u.isConstant && r) := by
  unfold emitMath
  split
  · rename_i hconstant
    rw [hconstant, Bool.true_and]
    exact hoperands.last fun _ _ _ _ => emitUniform_lands _ _ htype _ _
  · rename_i hconstant
    rw [eq_false_of_ne_true hconstant]
    exact emitUniform_lands _ _ htype _ _

theorem emitMath_quiet (htype : type ∈ ValueType.unknown :: ValueType.floats)
    (hoperands : ctx.Settles p operands false) :
    ctx.Settles p (ctx.emitMath u arguments type pattern operands) false :=
  Bool.and_false u.isConstant ▸ emitMath_lands htype hoperands

/-! ### Texts -/

/-- The chunk that a code refers to, which has a float type. -/
structure SeesFloat (ctx : Context) (c : Code) (d : Chunk) (p : Pass) : Prop where
  sees : ctx.Sees c d p
  float : d.type ∈ ValueType.floats

section Texts

variable {c : Code} {d : Chunk}

theorem SeesFloat.prolong (h : ctx.SeesFloat c d p) (hle : p.Prolongs q) :
    ctx.SeesFloat c d q := ⟨h.sees.prolong hle, h.float⟩

theorem readSlot_lands {i : Nat} (hd : (p.scope ctx.scope)[i]? = some d)
    (hdeferred : d.deferred?.isSome) (htype : d.type ∈ ValueType.floats) :
    ctx.Lands p (ctx.readSlot i) false fun c q =>
      ∃ d', ctx.SeesFloat c d' q ∧ d'.type = d.type := by
  have hslots : ∀ t ∈ ValueType.floats, (SlotKind.ofType? t).isSome ∧ t ≠ .unknown := by decide
  obtain ⟨hkind, hknown⟩ := hslots _ htype
  obtain ⟨u, hu⟩ := Option.isSome_iff_exists.mp hdeferred
  obtain ⟨kind, hkind⟩ := Option.isSome_iff_exists.mp hkind
  refine .read (chunk_eq hd) ?_
  simp only [hu, hkind]
  intro hp
  obtain ⟨c, q, h, hq, hle, hreports, d', hd', htype'⟩ := emitInline_lands hknown
    (kind.access d.type (addSlot (p.slots.table kind) u).1)
    (⟨hp.unfinished, hp.placed, hp.audible⟩ : ctx.Listens { p with
      slots := p.slots.withTable kind (addSlot (p.slots.table kind) u).2 })
  exact ⟨c, q, h, hq, hle, hreports, d', ⟨hd', htype' ▸ htype⟩, htype'⟩

theorem readOff_lands {β : Type} (f : Chunk → β) {i : Nat}
    (hd : (p.scope ctx.scope)[i]? = some d) (htype : d.type ∈ ValueType.floats) :
    ctx.Settles p (ctx.readOff f i) false := by
  refine .read (chunk_eq hd) ?_
  split
  · rename_i hdeferred
    refine (readSlot_lands hd hdeferred htype).quiet fun c q _ hc => ?_
    obtain ⟨d', ⟨⟨j, rfl, hd'⟩, -⟩, -⟩ := hc
    exact .read (chunk_eq hd') (.pure trivial)
  · exact .pure trivial

theorem textOf_lands (h : ctx.SeesFloat c d p) : ctx.Settles p (ctx.textOf c) false := by
  obtain ⟨⟨i, rfl, hd⟩, htype⟩ := h
  exact readOff_lands _ hd htype

theorem digestOf_lands (h : ctx.SeesFloat c d p) : ctx.Settles p (ctx.digestOf c) false := by
  obtain ⟨⟨i, rfl, hd⟩, htype⟩ := h
  exact readOff_lands _ hd htype

/-- A text is widened unless the types share no bit. -/
theorem widened_lands (h : ctx.SeesFloat c d p) (target : ValueType) :
    ctx.Settles p (ctx.widened c target) (!d.type.shares target) := by
  have hfloats : ∀ t ∈ ValueType.floats, t.isFloat ∧ t.shares t := by decide
  obtain ⟨hfloat, hself⟩ := hfloats _ h.float
  refine .read (typeOf_eq h.sees) ?_
  split
  · rename_i htarget
    rw [← htarget, hself]
    exact textOf_lands h
  split
  · rename_i hshares
    rw [Bool.and_eq_true] at hshares
    rw [hshares.1]
    refine (textOf_lands h).quiet fun _ q _ _ => ?_
    split
    · exact .pure trivial
    split <;> exact .pure trivial
  · rename_i hshares
    rw [hfloat, Bool.and_true] at hshares
    rw [eq_false_of_ne_true hshares]
    refine (textOf_lands h).quiet fun _ q _ _ => ?_
    exact (report_lands _).last fun _ _ _ _ => .pure trivial

/-- There is a common type unless the types share no bit. -/
theorem commonType_lands {s t : ValueType} (hs : s ∈ ValueType.floats)
    (ht : t ∈ ValueType.floats) :
    ctx.Lands p (ctx.commonType s t) (!s.shares t) fun type _ =>
      type = if s.shares t then (if s = .float then t else s) else .unknown := by
  have hfloats : ∀ t ∈ ValueType.floats, isNumeric t ∧ t.shares t := by decide
  have htype : arithmeticType s t = if s.shares t then .ok (if s = .float then t else s)
      else .error (.undefinedArithmetic s t) := by
    unfold arithmeticType
    rw [if_neg (by simp [hfloats s hs, hfloats t ht])]
    split
    · rename_i heq
      subst heq
      simp [hfloats s hs]
    · rfl
  unfold commonType
  rw [htype]
  cases s.shares t with
  | true => exact .pure rfl
  | false => exact (report_lands _).last fun _ _ _ _ => .pure rfl

end Texts

/-! ### Operations -/

section Operations

variable {a b c : Code} {da db dc : Chunk} (ha : ctx.SeesFloat a da p)

include ha

theorem textsOf_lands (hb : ctx.SeesFloat b db p) : ctx.Settles p (ctx.textsOf a b) false :=
  (textOf_lands ha).quiet fun _ _ hle _ =>
    (textOf_lands (hb.prolong hle)).quiet fun _ _ _ _ => .pure trivial

/-- The sum and its like are refused if the types share no bit. -/
theorem arithmetic_lands (hb : ctx.SeesFloat b db p) (op : BinaryOp) (pattern : String) :
    ctx.Settles p (ctx.arithmetic op pattern a b) (!da.type.shares db.type) := by
  have hcommon : ∀ s ∈ ValueType.floats, ∀ t ∈ ValueType.floats,
      (if s.shares t then (if s = .float then t else s) else ValueType.unknown) ∈
        ValueType.unknown :: ValueType.floats := by decide
  unfold arithmetic
  rw [if_neg (by simp [ha.sees.isNone, hb.sees.isNone])]
  refine .read (typeOf_eq ha.sees) (.read (typeOf_eq hb.sees) ?_)
  refine (commonType_lands ha.float hb.float).last fun type q hle htype => ?_
  replace htype : type ∈ ValueType.unknown :: ValueType.floats :=
    htype ▸ hcommon _ ha.float _ hb.float
  replace ha := ha.prolong hle
  replace hb := hb.prolong hle
  refine .read (uniformOf_eq ha.sees) (.read (uniformOf_eq hb.sees) ?_)
  split
  · exact emitMath_quiet htype (textsOf_lands ha hb)
  · refine (digestOf_lands ha).quiet fun _ q' hle' _ => ?_
    refine (digestOf_lands (hb.prolong hle')).quiet fun _ q'' hle'' _ => ?_
    replace ha := (ha.prolong hle').prolong hle''
    replace hb := (hb.prolong hle').prolong hle''
    exact (textsOf_lands ha hb).quiet fun _ _ _ _ => emitWith_lands _ htype _

theorem operand_lands : ctx.Settles p (do return [← ctx.textOf a]) false :=
  (textOf_lands ha).quiet fun _ _ _ _ => .pure trivial

theorem unaryAs_lands (op : UnaryOp) (htype : type ∈ ValueType.floats) :
    ctx.Settles p (ctx.unaryAs op type a) false := by
  refine .read (uniformOf_eq ha.sees) ?_
  split
  · exact emitMath_quiet (List.mem_cons_of_mem _ htype) (operand_lands ha)
  · exact (operand_lands ha).quiet fun _ _ _ _ => emitTemporary_lands htype _

theorem unary_lands (op : UnaryOp) : ctx.Settles p (ctx.unary op a) false := by
  unfold unary
  rw [if_neg (by simp [ha.sees.isNone])]
  exact .read (typeOf_eq ha.sees) (unaryAs_lands ha op ha.float)

theorem length_lands : ctx.Settles p (ctx.length a) false := by
  unfold length
  rw [if_neg (by simp [ha.sees.isNone])]
  exact .read (typeOf_eq ha.sees) (unaryAs_lands ha _ (by decide))

/-- A vector is cut. -/
theorem convertPlain_lands (htarget : target ∈ ValueType.floats)
    (hnarrow : target.components < da.type.components) :
    ctx.Lands p (ctx.convertPlain a da.type target) false fun c q => ∃ d, ctx.SeesFloat c d q := by
  have hfloats : ∀ t ∈ ValueType.floats, t.isFloat ∧ t ≠ .unknown := by decide
  unfold convertPlain
  rw [if_pos (by simp [hfloats _ ha.float, hfloats _ htarget]), if_pos hnarrow]
  refine (textOf_lands ha).quiet fun _ q _ _ => ?_
  refine (emitInline_lands (hfloats _ htarget).2 _).mono fun _ _ h => ?_
  obtain ⟨d, hd, htype⟩ := h
  exact ⟨d, hd, htype ▸ htarget⟩

theorem convert_lands (htarget : target ∈ ValueType.floats)
    (hnarrow : target.components < da.type.components) :
    ctx.Lands p (ctx.convert a target) false fun c q => ∃ d, ctx.SeesFloat c d q := by
  have hfloats : ∀ t ∈ ValueType.floats, t.shares .textureVirtual = false := by decide
  obtain ⟨⟨i, rfl, hi⟩, htype⟩ := ha
  refine .read (chunk_eq hi) ?_
  dsimp only
  rw [hfloats _ htype]
  split
  · exact .pure ⟨da, ⟨i, rfl, hi⟩, htype⟩
  split
  · rename_i hdeferred
    refine (readSlot_lands hi hdeferred htype).quiet fun c q _ hc => ?_
    obtain ⟨d, hd, hsame⟩ := hc
    rw [← hsame] at hnarrow ⊢
    exact convertPlain_lands hd htarget hnarrow
  · exact convertPlain_lands ⟨⟨i, rfl, hi⟩, htype⟩ htarget hnarrow

/-- An operand of an inner product that goes with a type, or is cut to it. -/
theorem dotOperand_lands (htarget : target ∈ ValueType.floats)
    (hfits : (target ≠ .float && da.type ≠ .float && target.components < da.type.components) ||
      da.type.shares target) : ctx.Settles p (ctx.dotOperand a target) false := by
  refine .read (typeOf_eq ha.sees) ?_
  split
  · rename_i hcut
    have hnarrow : target.components < da.type.components := by
      simp only [Bool.and_eq_true, decide_eq_true_eq] at hcut
      exact hcut.2
    refine (convert_lands ha htarget hnarrow).quiet fun c q _ hc => ?_
    obtain ⟨d, hd⟩ := hc
    exact textOf_lands hd
  · rename_i hcut
    have hshares : da.type.shares target := by
      simp only [Bool.or_eq_true] at hfits
      exact hfits.resolve_left fun h => hcut (by simpa using h)
    have hwidened := widened_lands ha target
    rw [hshares] at hwidened
    exact hwidened

section

variable (hb : ctx.SeesFloat b db p)

include hb

/-- One operand is brought to the type of the other: the scalar, or else the wider one. -/
theorem dotOperands_lands : ctx.Settles p (ctx.dotOperands a b da.type db.type) false := by
  have hfits : ∀ s ∈ ValueType.floats, ∀ t ∈ ValueType.floats,
      if promotesFirst s t then
        (t ≠ .float && s ≠ .float && t.components < s.components) || s.shares t
      else (s ≠ .float && t ≠ .float && s.components < t.components) || t.shares s := by decide
  have hfits := hfits _ ha.float _ hb.float
  unfold dotOperands
  split at hfits
  · rename_i hpromote
    rw [if_pos hpromote]
    refine (dotOperand_lands ha hb.float hfits).quiet fun _ q hle _ => ?_
    exact (textOf_lands (hb.prolong hle)).quiet fun _ _ _ _ => .pure trivial
  · rename_i hpromote
    rw [if_neg hpromote]
    refine (textOf_lands ha).quiet fun _ q hle _ => ?_
    exact (dotOperand_lands (hb.prolong hle) ha.float hfits).quiet fun _ _ _ _ => .pure trivial

/-- An inner product is never refused. -/
theorem dot_lands : ctx.Settles p (ctx.dot a b) false := by
  unfold dot
  rw [if_neg (by simp [ha.sees.isNone, hb.sees.isNone])]
  refine .read (typeOf_eq ha.sees) (.read (typeOf_eq hb.sees) (.read (uniformOf_eq ha.sees)
    (.read (uniformOf_eq hb.sees) ?_)))
  split
  · split
    · exact emitMath_quiet (by decide) (textsOf_lands ha hb)
    · exact emitMath_quiet (by decide) (dotOperands_lands ha hb)
  · exact (dotOperands_lands ha hb).quiet fun _ _ _ _ => emitTemporary_lands (by decide) _

/-- A cross product that is folded is refused if there is no common type, or if that has two
components. One that is emitted is refused unless both operands have three components or are
scalars. -/
theorem cross_lands :
    ctx.Settles p (ctx.cross a b)
      (if Route.of [da, db] = .code then !da.type.shares .float3 || !db.type.shares .float3
      else !da.type.shares db.type || da.type = .float2 || db.type = .float2) := by
  have hcommon : ∀ s ∈ ValueType.floats, ∀ t ∈ ValueType.floats,
      (if s.shares t then (if s = .float then t else s) else ValueType.unknown) = .float2 ∨
        (if s.shares t then (if s = .float then t else s) else ValueType.unknown).isFloat = false ↔
      (!s.shares t || s = .float2 || t = .float2) := by decide
  unfold cross
  rw [if_neg (by simp [ha.sees.isNone, hb.sees.isNone])]
  refine .read (uniformOf_eq ha.sees) (.read (uniformOf_eq hb.sees) ?_)
  split
  · rename_i hu hv
    rw [if_neg (Route.of_ne_code (by simp [hu, hv]))]
    refine .read (typeOf_eq ha.sees) (.read (typeOf_eq hb.sees) ?_)
    have hcommon := hcommon _ ha.float _ hb.float
    have hlands : ctx.Lands p (ctx.commonType da.type db.type) _ _ :=
      commonType_lands ha.float hb.float
    cases hrefused : (!da.type.shares db.type || da.type = .float2 || db.type = .float2) with
    | true =>
      rw [← Bool.or_true (!da.type.shares db.type)]
      refine hlands.bind fun type q hle htype => ?_
      rw [if_pos (by simpa [htype] using hcommon.mpr hrefused)]
      exact (report_lands _).settles
    | false =>
      have hshares : da.type.shares db.type = true := by
        simp only [Bool.or_eq_false_iff, Bool.not_eq_false'] at hrefused
        exact hrefused.1.1
      rw [hshares] at hlands
      refine hlands.quiet fun type q hle htype => ?_
      rw [if_neg]
      · exact emitMath_quiet (by decide) (textsOf_lands (ha.prolong hle) (hb.prolong hle))
      · have hrefused := mt hcommon.mp (ne_true_of_eq_false hrefused)
        simpa [htype, hshares] using hrefused
  · rename_i hplain
    rw [if_pos (Route.of_pair hplain)]
    refine (widened_lands ha .float3).bind fun _ q hle _ => ?_
    refine (widened_lands (hb.prolong hle) .float3).last fun _ _ _ _ => ?_
    exact emitTemporary_lands (by decide) _

/-- The operations that take their type from the first operand check the second one if they read
its text. -/
theorem binaryOfFirst_lands (op : BinaryOp) (pattern : String) :
    ctx.Settles p (ctx.binaryOfFirst op pattern a b)
      ((Route.of [da, db]).reads && !db.type.shares da.type) := by
  unfold binaryOfFirst
  rw [if_neg (by simp [ha.sees.isNone, hb.sees.isNone])]
  refine .read (typeOf_eq ha.sees) (.read (uniformOf_eq ha.sees) (.read (uniformOf_eq hb.sees) ?_))
  have hoperands : ctx.Settles p (do
      let s ← ctx.textOf a
      let t ← ctx.widened b da.type
      return [s, t]) (!db.type.shares da.type) := by
    refine (textOf_lands ha).quiet fun _ q hle _ => ?_
    exact (widened_lands (hb.prolong hle) _).last fun _ _ _ _ => .pure trivial
  split
  · rename_i u v hu hv
    have hroute : (Route.of [da, db]).reads = (u.expr.isConstant && v.expr.isConstant) := by
      rw [Route.reads_of_uniforms (by simp [hu, hv])]
      simp [Chunk.isSome_folded? hu, Chunk.isSome_folded? hv]
    rw [hroute]
    exact emitMath_lands (List.mem_cons_of_mem _ ha.float) hoperands
  · rename_i hplain
    rw [Route.of_pair hplain]
    exact hoperands.last fun _ _ _ _ => emitTemporary_lands ha.float _

/-- A value is brought between bounds that are checked if their texts are read. -/
theorem clamp_lands (hc : ctx.SeesFloat c dc p) :
    ctx.Settles p (ctx.clamp a b c) ((Route.of [da, db, dc]).reads &&
      (!db.type.shares da.type || !dc.type.shares da.type)) := by
  unfold clamp
  rw [if_neg (by simp [ha.sees.isNone, hb.sees.isNone, hc.sees.isNone])]
  refine .read (typeOf_eq ha.sees) (.read (uniformOf_eq ha.sees) (.read (uniformOf_eq hb.sees)
    (.read (uniformOf_eq hc.sees) ?_)))
  have hoperands : ctx.Settles p (do
      let s ← ctx.textOf a
      let t ← ctx.widened b da.type
      let r ← ctx.widened c da.type
      return [s, t, r]) (!db.type.shares da.type || !dc.type.shares da.type) := by
    refine (textOf_lands ha).quiet fun _ q hle _ => ?_
    refine (widened_lands (hb.prolong hle) _).bind fun _ q' hle' _ => ?_
    exact (widened_lands ((hc.prolong hle).prolong hle') _).last fun _ _ _ _ => .pure trivial
  split
  · rename_i u v w hu hv hw
    have hroute : (Route.of [da, db, dc]).reads =
        (u.expr.isConstant && v.expr.isConstant && w.expr.isConstant) := by
      rw [Route.reads_of_uniforms (by simp [hu, hv, hw])]
      simp [Chunk.isSome_folded? hu, Chunk.isSome_folded? hv, Chunk.isSome_folded? hw,
        Bool.and_assoc]
    rw [hroute]
    exact emitMath_lands (List.mem_cons_of_mem _ ha.float) hoperands
  · rename_i hplain
    rw [Route.of_triple hplain]
    exact hoperands.last fun _ _ _ _ => emitTemporary_lands ha.float _

end

omit ha in
theorem ofComponents_mem (n : Nat) :
    ValueType.ofComponents n ∈ ValueType.unknown :: ValueType.floats := by
  unfold ValueType.ofComponents
  split <;> decide

theorem componentMask_lands (mask : Mask) :
    ctx.Settles p (ctx.componentMask a mask)
      (lacksComponents da.type mask || mask.selected.isEmpty) := by
  unfold componentMask
  rw [if_neg (by simp [ha.sees.isNone])]
  refine .read (typeOf_eq ha.sees) ?_
  split
  · rename_i hlacks
    rw [hlacks, Bool.true_or]
    exact (textOf_lands ha).quiet fun _ _ _ _ => (report_lands _).settles
  rename_i hlacks
  rw [eq_false_of_ne_true hlacks, Bool.false_or]
  have hempty : (mask.selected.map fun i => if da.type = .float then 0 else i).isEmpty =
      mask.selected.isEmpty := List.isEmpty_map
  rw [← hempty]
  dsimp only
  generalize (mask.selected.map fun i => if da.type = ValueType.float then 0 else i) = sources
  split
  · rename_i hnone
    rw [hnone]
    exact (report_lands _).settles
  rename_i hsome
  rw [eq_false_of_ne_true hsome]
  refine .read (uniformOf_eq ha.sees) ?_
  have hoperands : ∀ letters : String,
      ctx.Settles p (do return [← ctx.textOf a, letters]) false :=
    fun _ => (textOf_lands ha).quiet fun _ _ _ _ => .pure trivial
  split
  · exact emitMath_quiet (ofComponents_mem _) (hoperands _)
  · exact (hoperands _).quiet fun _ _ _ _ => emitInline_quiet _ _

theorem append_lands (hb : ctx.SeesFloat b db p) :
    ctx.Settles p (ctx.append a b)
      (ValueType.ofComponents (da.type.components + db.type.components) = .unknown) := by
  have hwidths : ∀ t ∈ ValueType.floats, t.components ≠ 0 := by decide
  unfold append
  rw [if_neg (by simp [ha.sees.isNone, hb.sees.isNone])]
  refine .read (typeOf_eq ha.sees) (.read (typeOf_eq hb.sees) ?_)
  simp only [hwidths _ ha.float, hwidths _ hb.float, decide_false, Bool.false_or]
  split
  · rename_i hunknown
    rw [hunknown]
    exact (report_lands _).settles
  rename_i hknown
  rw [eq_false_of_ne_true hknown]
  refine .read (uniformOf_eq ha.sees) (.read (uniformOf_eq hb.sees) ?_)
  split
  · exact emitMath_quiet (ofComponents_mem _) (textsOf_lands ha hb)
  · exact (textsOf_lands ha hb).quiet fun _ _ _ _ => emitInline_quiet _ _

end Operations

end Context

/-! ### Verdicts -/

/-- The state with all reports forgotten. -/
def Pass.cleared (p : Pass) : Pass := { p with success := true, diagnostics := [], sink := none }

/-- Whether a step that ends without a fault reports a problem. What was reported before does not
matter. -/
def Pass.verdict? {α : Type} (m : PassM α) (p : Pass) : Option Bool :=
  match m p.cleared with
  | .ok _ q => some !q.diagnostics.isEmpty
  | .error _ _ => none

/-- An operation that is folded. -/
inductive FoldedOperation where
  | unary (kind : UnaryKind) (h : kind ≠ .normalize)
  | binary (kind : BinaryKind) (h : kind ≠ .power)
  | clamp
  | componentMask (mask : Mask)

namespace FoldedOperation

/-- The number of operands. -/
def arity : FoldedOperation → Nat
  | unary _ _ | componentMask _ => 1
  | binary _ _ => 2
  | clamp => 3

/-- Applies an operation to as many operands as it takes. -/
def apply (f : FoldedOperation) (ctx : Context) (operands : List Code) : PassM Code :=
  match f, operands with
  | unary kind _, [x] => ctx.applyUnary kind x
  | binary kind _, [a, b] => ctx.applyBinary kind a b
  | clamp, [x, lo, hi] => ctx.clamp x lo hi
  | componentMask mask, [x] => ctx.componentMask x mask
  | _, _ => return none

/-- Whether an operation takes its type from its first operand alone. -/
def takesFirst : FoldedOperation → Bool
  | binary .min _ | binary .max _ | binary .fmod _ | binary .arctangent2 _ | clamp => true
  | _ => false

/-- Whether an operation refuses operands of the given float types on the given route. -/
def refuses (f : FoldedOperation) (route : Route) (types : List ValueType) : Bool :=
  match f, types with
  | binary kind _, [s, t] =>
    match kind with
    | .add | .subtract | .multiply | .divide => !s.shares t
    | .min | .max | .fmod | .arctangent2 => route.reads && !t.shares s
    | .cross =>
      if route = .code then !s.shares .float3 || !t.shares .float3
      else !s.shares t || s = .float2 || t = .float2
    | .appendVector => ValueType.ofComponents (s.components + t.components) = .unknown
    | .dot | .power => false
  | clamp, [s, lo, hi] => route.reads && (!lo.shares s || !hi.shares s)
  | componentMask mask, [s] => Context.lacksComponents s mask || mask.selected.isEmpty
  | _, _ => false

/-- Whether folding an operation skips the check of its text: with the types taken from the first
operand, if no text is read; in a cross product, if there is a common type not of two components. -/
def skipsCheck (f : FoldedOperation) (route : Route) (types : List ValueType) : Bool :=
  match f, types with
  | binary .cross _, [s, t] => s.shares t && s ≠ .float2 && t ≠ .float2
  | f, _ => f.takesFirst && !route.reads

section Verdict

variable {ctx ctx' : Context} {p p' : Pass} {operands : List (Code × Chunk)}

/-- Operations refuse what they say they refuse, and come to an end in any case. -/
theorem apply_lands (f : FoldedOperation) (harity : operands.length = f.arity)
    (hsees : ∀ x ∈ operands, ctx.SeesFloat x.1 x.2 p) :
    ctx.Settles p (f.apply ctx (operands.map (·.1)))
      (f.refuses (Route.of (operands.map (·.2))) (operands.map (·.2.type))) := by
  cases f with
  | unary kind hkind =>
    obtain ⟨x, rfl⟩ := List.length_eq_one_iff.mp harity
    have hx := hsees x (by simp)
    cases kind with
    | normalize => exact absurd rfl hkind
    | length => exact Context.length_lands hx
    | _ => exact Context.unary_lands hx _
  | binary kind hkind =>
    obtain ⟨a, b, rfl⟩ := List.length_eq_two.mp harity
    have ha := hsees a (by simp)
    have hb := hsees b (by simp)
    cases kind with
    | power => exact absurd rfl hkind
    | add | subtract | multiply | divide => exact Context.arithmetic_lands ha hb _ _
    | min | max | fmod | arctangent2 => exact Context.binaryOfFirst_lands ha hb _ _
    | dot => exact Context.dot_lands ha hb
    | cross => exact Context.cross_lands ha hb
    | appendVector => exact Context.append_lands ha hb
  | clamp =>
    obtain ⟨x, lo, hi, rfl⟩ := List.length_eq_three.mp harity
    exact Context.clamp_lands (hsees x (by simp)) (hsees lo (by simp)) (hsees hi (by simp))
  | componentMask mask =>
    obtain ⟨x, rfl⟩ := List.length_eq_one_iff.mp harity
    exact Context.componentMask_lands (hsees x (by simp)) mask

/-- What folding refuses, in terms of what is refused as code. -/
theorem refuses_eq (f : FoldedOperation) {route : Route} (hroute : route ≠ .code)
    {types : List ValueType} (harity : types.length = f.arity)
    (hfloats : ∀ t ∈ types, t ∈ ValueType.floats) :
    f.refuses route types = (f.refuses .code types && !f.skipsCheck route types) := by
  have hcross : ∀ s ∈ ValueType.floats, ∀ t ∈ ValueType.floats,
      (!s.shares t || s = .float2 || t = .float2) = ((!s.shares .float3 || !t.shares .float3) &&
        !(s.shares t && s ≠ .float2 && t ≠ .float2)) := by decide
  cases f with
  | unary => rfl
  | binary kind =>
    obtain ⟨s, t, rfl⟩ := List.length_eq_two.mp harity
    cases kind with
    | power | dot => rfl
    | add | subtract | multiply | divide | appendVector =>
      simp [refuses, skipsCheck, takesFirst]
    | min | max | fmod | arctangent2 =>
      cases route <;> simp [refuses, skipsCheck, takesFirst, Route.reads]
    | cross =>
      simp only [refuses, if_neg hroute, if_true]
      exact hcross s (hfloats s (by simp)) t (hfloats t (by simp))
  | clamp =>
    obtain ⟨s, lo, hi, rfl⟩ := List.length_eq_three.mp harity
    cases route <;> simp [refuses, skipsCheck, takesFirst, Route.reads]
  | componentMask =>
    obtain ⟨s, rfl⟩ := List.length_eq_one_iff.mp harity
    simp [refuses, skipsCheck, takesFirst]

/-- The verdict of a step from a state in which nothing was reported, on operands of float types. -/
theorem verdict?_of_settles {α : Type} {m : PassM α} {r : Bool} (hopen : p.finished = false)
    (hsome : 0 < operands.length) (hsees : ∀ x ∈ operands, ctx.Sees x.1 x.2 p)
    (h : ctx.Settles p.cleared m r) : verdict? m p = some r := by
  obtain ⟨x, hx⟩ := List.exists_mem_of_length_pos hsome
  have hplaced : ctx.scope < p.scopes.length := by
    refine Nat.lt_of_not_le fun hle => ?_
    have hmem := (hsees x hx).mem
    rw [scope, List.getD_eq_getElem?_getD, List.getElem?_eq_none hle] at hmem
    exact nomatch hmem
  obtain ⟨a, q, hm, -, -, hd, -⟩ := h ⟨hopen, hplaced, rfl⟩
  unfold verdict?
  rw [hm]
  simp [hd, cleared]

/-- **Folding accepts what is accepted as code**, and refuses what is refused as code, unless it
skips the check of a text that it does not need. -/
theorem verdict (f : FoldedOperation) {uniforms plains : List (Code × Chunk)}
    (hopen : p.finished = false) (hopen' : p'.finished = false)
    (harity : uniforms.length = f.arity)
    (hfloats : ∀ x ∈ uniforms, x.2.type ∈ ValueType.floats)
    (htypes : plains.map (·.2.type) = uniforms.map (·.2.type))
    (huniforms : ∀ x ∈ uniforms, ctx.Sees x.1 x.2 p ∧ x.2.uniform?.isSome)
    (hplains : ∀ x ∈ plains, ctx'.Sees x.1 x.2 p' ∧ x.2.uniform? = none) :
    ∃ refused, verdict? (f.apply ctx' (plains.map (·.1))) p' = some refused ∧
      verdict? (f.apply ctx (uniforms.map (·.1))) p = some (refused &&
        !f.skipsCheck (Route.of (uniforms.map (·.2))) (uniforms.map (·.2.type))) := by
  have hlength : plains.length = uniforms.length := by simpa using congrArg List.length htypes
  have hpos : 0 < f.arity := by cases f <;> exact Nat.succ_pos _
  have hfloats' : ∀ x ∈ plains, x.2.type ∈ ValueType.floats := by
    intro x hx
    have hmem : x.2.type ∈ plains.map (·.2.type) := List.mem_map_of_mem hx
    rw [htypes] at hmem
    obtain ⟨y, hy, htype⟩ := List.mem_map.mp hmem
    exact htype ▸ hfloats y hy
  have hcode : Route.of (plains.map (·.2)) = .code := by
    obtain ⟨x, hx⟩ := List.exists_mem_of_length_pos (hlength ▸ harity ▸ hpos)
    exact Route.of_code (List.mem_map_of_mem hx) (hplains x hx).2
  have hfolded : Route.of (uniforms.map (·.2)) ≠ .code := by
    refine Route.of_ne_code fun d hd => ?_
    obtain ⟨x, hx, rfl⟩ := List.mem_map.mp hd
    exact (huniforms x hx).2
  have hplain : ctx'.Settles p'.cleared _ _ := f.apply_lands (hlength.trans harity)
    fun x hx => ⟨(hplains x hx).1, hfloats' x hx⟩
  have huniform : ctx.Settles p.cleared _ _ := f.apply_lands harity
    fun x hx => ⟨(huniforms x hx).1, hfloats x hx⟩
  rw [hcode, htypes] at hplain
  refine ⟨_, verdict?_of_settles hopen' (hlength ▸ harity ▸ hpos) (fun x hx => (hplains x hx).1)
    hplain, ?_⟩
  rw [verdict?_of_settles hopen (harity ▸ hpos) (fun x hx => (huniforms x hx).1) huniform,
    f.refuses_eq hfolded (by simpa using harity)]
  intro t ht
  obtain ⟨x, hx, rfl⟩ := List.mem_map.mp ht
  exact hfloats x hx

/-- The sum. -/
def sum : FoldedOperation := binary .add (by simp)

/-- A parameter and a literal, of four and of three components, with the code that reads them. -/
def unequalUniforms : List (Code × Chunk) :=
  [(some 0, ⟨0, "", .float4, .uniform ⟨0, [], .vectorParameter "Tint" .zero⟩⟩),
    (some 1, ⟨0, "MaterialFloat3(0,0,0)", .float3, .uniform ⟨1, [], .constant .zero .float3⟩⟩)]

/-- Texts of the same types. -/
def unequalTexts : List (Code × Chunk) :=
  [(some 0, ⟨0, "Parameters.VertexColor", .float4, .inline⟩),
    (some 1, ⟨0, "GetWorldPosition(Parameters)", .float3, .inline⟩)]

/-- A place in the pixel stage. -/
def pixelContext : Context where
  env := ⟨{}, {}⟩
  stage := .pixel
  scope := 0

/-- The state with the given chunks. -/
def stateOf (operands : List (Code × Chunk)) : Pass := { scopes := [operands.map (·.2)] }

/-- Two values of unequal widths cannot be added, be they texts or uniform expressions. -/
theorem verdict_unequal :
    verdict? (sum.apply pixelContext (unequalTexts.map (·.1))) (stateOf unequalTexts) = some true ∧
    verdict? (sum.apply pixelContext (unequalUniforms.map (·.1))) (stateOf unequalUniforms) =
      some true := by
  have huniforms : ∀ x ∈ unequalUniforms,
      pixelContext.Sees x.1 x.2 (stateOf unequalUniforms) ∧ x.2.uniform?.isSome := by
    intro x hx
    simp only [unequalUniforms, List.mem_cons, List.not_mem_nil, or_false] at hx
    rcases hx with rfl | rfl
    · exact ⟨⟨0, rfl, rfl⟩, rfl⟩
    · exact ⟨⟨1, rfl, rfl⟩, rfl⟩
  have htexts : ∀ x ∈ unequalTexts,
      pixelContext.Sees x.1 x.2 (stateOf unequalTexts) ∧ x.2.uniform? = none := by
    intro x hx
    simp only [unequalTexts, List.mem_cons, List.not_mem_nil, or_false] at hx
    rcases hx with rfl | rfl
    · exact ⟨⟨0, rfl, rfl⟩, rfl⟩
    · exact ⟨⟨1, rfl, rfl⟩, rfl⟩
  have hfloats : ∀ x ∈ unequalUniforms, x.2.type ∈ ValueType.floats := by decide
  have htypes : unequalTexts.map (·.2.type) = unequalUniforms.map (·.2.type) := rfl
  have hopen : ∀ operands, (stateOf operands).finished = false := fun _ => rfl
  obtain ⟨refused, hplain, huniform⟩ :=
    sum.verdict (hopen _) (hopen _) rfl hfloats htypes huniforms htexts
  have hrefused : verdict? (sum.apply pixelContext (unequalTexts.map (·.1)))
      (stateOf unequalTexts) = some true := by decide +kernel
  rw [hrefused] at hplain
  cases hplain
  exact ⟨hrefused, huniform⟩

end Verdict

end FoldedOperation

/-! ### A cross product that is folded -/

/-- The cross product of two parameters. -/
def crossedTints : Graph where
  nodes := [.vectorParameter "A" ⟨.one, .two, .half, .zero⟩,
    .vectorParameter "B" ⟨.two, .one, .zero, .half⟩, .binary .cross ⟨1, 0⟩ ⟨2, 0⟩ .zero .zero]

/-- The cross product of the vertex color with itself. -/
def crossedColors : Graph where
  nodes := [.vertexColor, .vertexColor, .binary .cross ⟨1, 5⟩ ⟨2, 5⟩ .zero .zero]

/-- The material that has a node for its color. -/
def crossedMaterial : Environment where
  material := { inputs := (PropertyTable.const Input.none).set .emissiveColor ⟨3, 0⟩ }

/-- The cross product of values of four components is accepted for parameters, and refused for
texts. -/
theorem Graph.run_crossedTints :
    (∃ o p, run crossedMaterial (some crossedTints.expressions) {} = .ok o p ∧ o.success = true) ∧
    ∃ o p, run crossedMaterial (some crossedColors.expressions) {} = .ok o p ∧
      o.success = false := by
  constructor <;> decide +kernel

end ShaderGraph
