import ShaderGraph.Proofs.Casts
import ShaderGraph.Proofs.LicensedSteps

/-!
# Ordinary code

Code is ordinary if it is not that of a virtual texture (`Context.Ordinary`). What is emitted with
another type is ordinary. For a temporary that is not enough, since it may be found among the chunks
that are there already; but it has a text, and a virtual texture has none (`Chunk.Tidy`). An
operation may hand on what it is given, so its operands have to be ordinary; then it gives ordinary
code, and needs no licence for it (`Context.avoiding`). A sample of an ordinary texture is not one
of a virtual texture (`Context.sample_avoids`).
-/

namespace ShaderGraph

namespace Pass

/-- All chunks are as emission leaves them. -/
def Tidy (p : Pass) : Prop := ∀ k, ∀ c ∈ p.scope k, c.Tidy

variable {L : Licence} {p q : Pass}

theorem Tidy.abides (h : p.Tidy) (hq : Abides L p q) : q.Tidy := by
  intro k c hc
  obtain ⟨more, hmore, htidy⟩ := hq.scopes k
  rw [hmore] at hc
  exact (List.mem_append.1 hc).elim (h k c) (htidy c)

theorem Abides.refers (hq : Abides L p q) {k : Nat} {T : Chunk → Prop} {c : Code}
    (h : p.Refers k T c) : q.Refers k T c := by
  intro i hi
  obtain ⟨d, hd, hT⟩ := h i hi
  obtain ⟨more, hmore, -⟩ := hq.scopes k
  exact ⟨d, by rw [hmore, List.getElem?_append_left (List.getElem?_eq_some_iff.1 hd).1, hd], hT⟩

end Pass

open Pass

namespace Context

variable {L : Licence} {ctx : Context} {p q : Pass} {c : Code} {type : ValueType} {α : Type}
variable {literal : Bool}

/-- Code that is not that of a virtual texture. -/
def Ordinary (ctx : Context) (c : Code) (p : Pass) : Prop :=
  p.Refers ctx.scope (·.type ≠ .textureVirtual) c

theorem Ordinary.mono (h : ctx.Ordinary c p) (hq : Abides L p q) : ctx.Ordinary c q := hq.refers h

/-- From `p`, a step gives only ordinary code. -/
def Ordinarily (ctx : Context) (p : Pass) (m : PassM Code) : Prop :=
  p.Tidy → ctx.scope < p.scopes.length → p.Gives m fun c q => ctx.Ordinary c q

/-! ### Emission -/

theorem report_ordinary (problem : Problem) : ctx.Ordinarily p (ctx.report problem) :=
  fun _ _ => report_refers problem

theorem emitInline_ordinary (text : String) (h : type ≠ .textureVirtual) :
    ctx.Ordinarily p (ctx.emitInline type text) := by
  refine fun _ hplaced => (emitInline_refers hplaced type text).mono fun c q hc => ?_
  exact hc.mono fun d hd => hd ▸ h

/-- A temporary is not found where its text is that of no temporary. -/
theorem emitWith_ordinary (digest : Digest) {text : String} (htext : text ≠ "") :
    ctx.Ordinarily p (ctx.emitWith digest type text) := by
  refine fun htidy hplaced => (emitWith_gives digest type text).mono fun c q hc => ?_
  obtain ⟨hkept, ⟨i, d, rfl, rfl, hd, -, rfl⟩ | ⟨rfl, rfl⟩⟩ | ⟨-, rfl, -⟩ := hc
  · exact .of_getElem? hd fun hvirtual => htext (htidy _ _ (List.mem_of_getElem? hd) hvirtual)
  · exact refers_append (p := { p with nextTemporary := _ }) hplaced
      (ne_textureVirtual_of_temporary hkept)
  · exact .none

/-- Nothing but a texture has the type of one. -/
theorem emitUniform_ordinary (u : Uniform) (arguments : List Nat) (digest : Digest) (text : String)
    (h : u.isTexture → type ≠ .textureVirtual) :
    ctx.Ordinarily p (ctx.emitUniform u arguments type digest text) := by
  refine fun _ hplaced => (emitUniform_gives u arguments type digest text).mono fun c q hc => ?_
  obtain ⟨rfl, -⟩ | ⟨hchecked, hc⟩ := hc
  · exact .none
  have htype : type ≠ .textureVirtual := by
    rintro rfl
    exact h (hchecked rfl) rfl
  obtain ⟨_, -, ⟨i, d, rfl, rfl, hd, rfl, -⟩ | ⟨rfl, rfl⟩⟩ | ⟨-, rfl, rfl⟩ := hc
  · exact .of_getElem? hd htype
  · exact refers_append hplaced htype
  · exact refers_append (p := { p with uniforms := _ }) hplaced htype

/-! ### Reading -/

/-- The text that reads a slot is ordinary if what is read is. -/
theorem readSlot_ordinary {i : Nat} (h : ctx.Ordinary (some i) p) :
    ctx.Ordinarily p (ctx.readSlot i) := by
  obtain ⟨d, hd, htype⟩ := h i rfl
  exact fun _ _ => (readSlot_refers hd).mono fun c q hc => hc.mono fun e he => he ▸ htype

/-! ### Operations -/

/-- What the logic of ordinary code speaks of. -/
def shyness (ctx : Context) : ctx.Concerns where
  handles := True
  virtual := False

theorem shyness_points : ctx.shyness.Points literal c p ↔ ctx.Ordinary c p := by
  refine ⟨fun h => ?_, fun h => ⟨fun _ => ?_, False.elim⟩⟩
  · exact fun i hi => (h.place trivial i hi).imp fun d ⟨hd, htype⟩ => ⟨hd, htype.resolve_left id⟩
  · exact fun i hi => (h i hi).imp fun d ⟨hd, htype⟩ => ⟨hd, .inr htype⟩

theorem shyness_holds : ctx.shyness.Holds literal c p ↔ ctx.Ordinary c p :=
  ⟨fun h => shyness_points.1 h.toPoints, fun h => ⟨shyness_points.2 h, fun _ => False.elim⟩⟩

/-- Where chunks are as emission leaves them, a step does nothing that needs a licence, and ends as
`Q` says. -/
def Avoids (ctx : Context) (p : Pass) (m : PassM α) (Q : α → Pass → Prop) : Prop :=
  p.Tidy → ctx.scope < p.scopes.length → p.Gives m fun a q => Remains {} p q ∧ Q a q

namespace Avoids

variable {β : Type} {m : PassM α} {f : α → PassM β} {Q : α → Pass → Prop} {R : β → Pass → Prop}

theorem bind (hm : ctx.Avoids p m Q)
    (hf : ∀ a q, Remains {} p q → Q a q → ctx.Avoids q (f a) R) : ctx.Avoids p (m >>= f) R := by
  intro htidy hplaced
  refine (hm htidy hplaced).bind fun a q ⟨hq, ha⟩ => ?_
  refine (hf a q hq ha (htidy.abides hq.toAbides)
    (Nat.lt_of_lt_of_le hplaced hq.length_scopes)).mono fun b r ⟨hr, hb⟩ => ⟨hq.trans hr, hb⟩

theorem of_plain {m : PassM Code} (hm : Plain m) (h : ctx.Ordinarily p m) :
    ctx.Avoids p m ctx.shyness.Good := fun htidy hplaced =>
  (hm.remains.both (h htidy hplaced)).mono fun _ _ hc => ⟨hc.1, shyness_holds.2 hc.2⟩

end Avoids

/-- The logic of ordinary code. -/
def avoiding (ctx : Context) : ctx.Logic where
  toConcerns := ctx.shyness
  Ends p m Q := ctx.Avoids p m Q
  Later p q := Remains {} p q
  trans := .trans
  scope h _ := by
    obtain ⟨more, hmore, -⟩ := h.scopes ctx.scope
    exact ⟨more, hmore.symm⟩
  lasts _ := False.elim
  pure h _ _ := .pure ⟨.refl _, h⟩
  bind := .bind
  throw _ _ _ _ := .throw _
  report _ _ _ := (report_remains ctx _).mono fun _ _ h =>
    ⟨h.1, h.2.1 ▸ .of_failed False.elim, False.elim⟩
  registers h _ _ := (registers_plain h).remains.mono fun _ _ hq => ⟨hq, trivial⟩
  chunk {_} i _ _ _ := (chunk_gives i).mono fun d q ⟨hq, hd⟩ =>
    ⟨hq ▸ .refl _, hq, fun _ => hd, False.elim, False.elim, fun _ => False.elim⟩
  readSlot {_} i h htidy hplaced := (readSlot_plain i).remains.both
    (readSlot_ordinary (shyness_points.1 h) htidy hplaced) |>.mono fun _ _ hc =>
      ⟨hc.1, shyness_holds.2 hc.2, False.elim⟩
  emitInline {_ type text _} htype _ _ _ htidy hplaced :=
    have hplain : Plain (ctx.emitInline type text) := emitInline_plain type text (absurd · htype)
    hplain.remains.both (emitInline_ordinary text htype htidy hplaced) |>.mono fun _ _ hc =>
      ⟨hc.1, shyness_holds.2 hc.2⟩
  emitWith {_ digest type text} _ _ htext htidy hplaced :=
    have hplain : Plain (ctx.emitWith digest type text) := emitWith_plain digest type text
    hplain.remains.both (emitWith_ordinary digest htext htidy hplaced) |>.mono fun _ _ hc =>
      ⟨hc.1, shyness_holds.2 hc.2, False.elim⟩
  emitUniform hu _ _ := by
    have hnumber := hu.isTexture_eq
    exact .of_plain (emitUniform_plain _ _ _ _ _ (by simp [hnumber]))
      (emitUniform_ordinary _ _ _ _ (by simp [hnumber]))
  emitTexture _ _ _ htype := .of_plain (emitUniform_plain _ _ _ _ _ fun _ => rfl)
    (emitUniform_ordinary _ _ _ _ fun _ => htype.resolve_left id)

theorem Ordinary.good (h : ctx.Ordinary c p) : ctx.avoiding.Good c p := shyness_holds.2 h

/-- What an operation gives. -/
theorem Ordinarily.of_good {m : PassM Code} (h : ctx.avoiding.Ends p m ctx.avoiding.Good) :
    ctx.Ordinarily p m := fun htidy hplaced =>
  (h htidy hplaced).mono fun _ _ hc => shyness_holds.1 hc.2

/-- **A sample of an ordinary texture** is not one of a virtual texture. -/
theorem sample_avoids {s : Sample} (htexture : ctx.Ordinary s.texture p)
    (hcoordinate : ctx.Ordinary s.coordinate p) (hmip : ctx.Ordinary s.mip p)
    (hmipY : ctx.Ordinary s.mipY p) : ctx.Avoids p (ctx.sample s) ctx.avoiding.Good := by
  refine ctx.avoiding.sample htexture.good hcoordinate.good (shyness_points.2 hmip)
    (shyness_points.2 hmipY) fun q m hq htype hsome _ _ _ => ?_
  obtain ⟨i, hi⟩ := Option.isSome_iff_exists.1 hsome
  obtain ⟨d, hd, hvirtual⟩ := htype.sees (.inl trivial) i hi
  obtain ⟨e, he, hordinary⟩ := htexture.mono hq.toAbides i hi
  cases hd.symm.trans he
  exact absurd hvirtual hordinary

end Context

end ShaderGraph
