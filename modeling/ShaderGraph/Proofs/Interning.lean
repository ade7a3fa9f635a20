import Mathlib.Data.List.Forall2
import ShaderGraph.Uniform.Slots

/-!
# Shared uniform expressions

The table of a compilation holds each uniform expression once. An expression is added at the end,
over arguments that are entries already, and only if no entry has its root and its arguments
(`UniformTable.Interned`). So the place of an entry is its number, and entries that agree throughout
are one entry (`UniformTable.Interned.eq_of_identical`,
`UniformTable.Interned.eq_of_expr_identical`), although only roots and places of arguments were ever
compared.

The tables of slots are made from entries: each has a slot at most once, and none is constant
(`UniformSet.Slotted`).
-/

namespace ShaderGraph

variable {slots : List SharedUniform}

/-! ### Operands -/

namespace Uniform

variable {u v : SharedUniform} {table : UniformTable} {e : Uniform}

/-- The expressions that an expression is directly made from. -/
def operands : Uniform → List Uniform
  | unary _ _ a | swizzle _ a => [a]
  | binary _ _ a b => [a, b]
  | clamp _ a lo hi => [a, lo, hi]
  | _ => []

/-- An expression is taken for another: it is the other one, or has its root over its operands. -/
def StandsFor (u v : Uniform) : Prop := u = v ∨ u.sameRoot v ∧ u.operands = v.operands

/-- What is taken for a constant expression is constant. -/
theorem StandsFor.isConstant_eq {u v : Uniform} (h : u.StandsFor v) :
    u.isConstant = v.isConstant := by
  rcases h with rfl | ⟨hroot, hoperands⟩
  · rfl
  · cases u <;> cases v <;> simp_all [sameRoot, operands, isConstant]

/-- An expression is made from the entries `arguments` of a table. -/
structure IsOver (u : Uniform) (arguments : List SharedUniform) (table : UniformTable) : Prop where
  operands : u.operands = arguments.map (·.expr)
  listed : ∀ a ∈ arguments, a ∈ table

theorem IsOver.mono {u : Uniform} {arguments : List SharedUniform} {more : UniformTable}
    (h : u.IsOver arguments table) (hmore : table <+: more) : u.IsOver arguments more :=
  ⟨h.operands, fun a ha => hmore.subset (h.listed a ha)⟩

theorem IsOver.one (h : e.operands = [u.expr]) (hu : u ∈ table) :
    e.IsOver [u] table := ⟨h, by simp [hu]⟩

theorem IsOver.two (h : e.operands = [u.expr, v.expr]) (hu : u ∈ table) (hv : v ∈ table) :
    e.IsOver [u, v] table := ⟨h, by simp [hu, hv]⟩

theorem IsOver.three {w : SharedUniform} (h : e.operands = [u.expr, v.expr, w.expr])
    (hu : u ∈ table) (hv : v ∈ table) (hw : w ∈ table) :
    e.IsOver [u, v, w] table := ⟨h, by simp [hu, hv, hw]⟩

/-- Expressions agree if their roots do and their operands do, one by one. -/
theorem identical_iff (u v : Uniform) :
    u.identical v ↔
      u.sameRoot v ∧ List.Forall₂ (fun a b => a.identical b) u.operands v.operands := by
  cases u <;> cases v <;> simp [identical, sameRoot, operands, and_assoc]

end Uniform

/-! ### Equality of numbers -/

theorem Single.equal_comm (x y : Single) : x.equal y = y.equal x := by
  unfold Single.equal
  rw [Bool.and_comm (!x.isNaN), BEq.comm]

theorem Single.equal_trans {x y z : Single} (h : x.equal y) (h' : y.equal z) : x.equal z := by
  simp_all [Single.equal]

/-- The numbers are the same but, if they are zeros, for their signs. -/
def Single.UpToSign (x y : Single) : Prop := x = y ∨ x.isZero ∧ y.isZero

namespace Single

variable {x y : Single}

theorem eq_of_negative_of_code (hsign : x.negative = y.negative) (hcode : x.code = y.code) :
    x = y := by
  obtain ⟨x⟩ := x
  obtain ⟨y⟩ := y
  have hplace : 2147483648 ≤ x.toNat ↔ 2147483648 ≤ y.toNat := decide_eq_decide.mp hsign
  have hmod : x.toNat % 2147483648 = y.toNat % 2147483648 := hcode
  have hx := x.toNat_lt
  have hy := y.toNat_lt
  congr 1
  exact UInt32.toNat_inj.mp (by omega)

/-- Numbers that are equal as numbers differ at most as the two zeros do. -/
theorem upToSign_of_equal (h : x.equal y) : x.UpToSign y := by
  simp only [equal, Bool.and_eq_true, beq_iff_eq] at h
  obtain ⟨-, hrank⟩ := h
  have : x.code = y.code ∧ (x.negative = y.negative ∨ x.code = 0) := by
    unfold rank at hrank
    split at hrank <;> split at hrank <;> refine ⟨by omega, ?_⟩
    · exact .inl (by simp_all only)
    · exact .inr (by omega)
    · exact .inr (by omega)
    · exact .inl (by simp_all only [Bool.not_eq_true])
  obtain ⟨hcode, hsign | hzero⟩ := this
  · exact .inl (eq_of_negative_of_code hsign hcode)
  · exact .inr (by simp [isZero, ← hcode, hzero])

end Single

theorem Value.equal_comm (v w : Value) : v.equal w = w.equal v := by
  simp [Value.equal, Value.equalUpTo, Value.toList, Single.equal_comm]

/-- Roots agree in either order. -/
theorem Uniform.sameRoot_comm (u v : Uniform) : u.sameRoot v = v.sameRoot u := by
  cases u <;> cases v <;>
    simp [Uniform.sameRoot, Value.equal_comm, Single.equal_comm, BEq.comm]

/-! ### Tables of shared expressions -/

/-- An expression that can be added to a table. -/
structure SharedUniform.IsNew (u : SharedUniform) (table : UniformTable) : Prop where
  id : u.id = table.length
  arguments : ∃ args : List SharedUniform, u.arguments = args.map (·.id) ∧ u.expr.IsOver args table
  absent : table.find? u.expr u.arguments = none

namespace UniformTable

/-- A table in which every entry was new when it was added. -/
inductive Interned : UniformTable → Prop where
  | nil : Interned []
  | snoc {table : UniformTable} {u : SharedUniform} (h : Interned table) (hnew : u.IsNew table) :
      Interned (table ++ [u])

/-- Whether two entries of a table are one, or agree in their roots and, place by place, in their
arguments. -/
inductive Identical (table : UniformTable) : SharedUniform → SharedUniform → Prop where
  | same (u : SharedUniform) : Identical table u u
  | alike {u v : SharedUniform} (root : u.expr.sameRoot v.expr)
      (length : u.arguments.length = v.arguments.length)
      (arguments : ∀ (n i j : Nat) (a b : SharedUniform), u.arguments[n]? = some i →
        v.arguments[n]? = some j → table[i]? = some a → table[j]? = some b →
        Identical table a b) : Identical table u v

namespace Interned

variable {table : UniformTable} {u v : SharedUniform}

section

variable (h : table.Interned)

include h

/-- The number of an entry is its place. -/
theorem id_eq {i : Nat} (hu : table[i]? = some u) : u.id = i := by
  induction h with
  | nil => simp at hu
  | @snoc table w _ hnew ih =>
    rcases Nat.lt_trichotomy i table.length with hlt | rfl | hgt
    · exact ih (by rwa [List.getElem?_append_left hlt] at hu)
    · obtain rfl : w = u := by simpa using hu
      exact hnew.id
    · rw [List.getElem?_eq_none (by simp; omega)] at hu
      simp at hu

theorem getElem?_id (hu : u ∈ table) : table[u.id]? = some u := by
  obtain ⟨i, hi⟩ := List.getElem?_of_mem hu
  rwa [h.id_eq hi]

/-- Entries with one number are one. -/
theorem eq_of_id_eq (hu : u ∈ table) (hv : v ∈ table) (hid : u.id = v.id) : u = v :=
  Option.some.inj ((h.getElem?_id hu).symm.trans (hid ▸ h.getElem?_id hv))

/-- An entry is made from entries before it. -/
theorem exists_arguments (hu : u ∈ table) :
    ∃ args : List SharedUniform, u.arguments = args.map (·.id) ∧ u.expr.IsOver args table ∧
      ∀ a ∈ args, a.id < u.id := by
  induction h with
  | nil => simp at hu
  | @snoc table w htable hnew ih =>
    rcases List.mem_append.mp hu with hu | hu
    · obtain ⟨args, hargs, hover, hlt⟩ := ih hu
      exact ⟨args, hargs, hover.mono (List.prefix_append _ _), hlt⟩
    · obtain rfl := List.mem_singleton.mp hu
      obtain ⟨args, hargs, hover⟩ := hnew.arguments
      refine ⟨args, hargs, hover.mono (List.prefix_append _ _), fun a ha => ?_⟩
      rw [hnew.id]
      exact (List.getElem?_eq_some_iff.mp (htable.getElem?_id (hover.listed a ha))).1

/-- An entry with the root and the arguments of an expression stands for it: entries with the same
places are the same. -/
theorem standsFor_of_find? {e : Uniform} {arguments : List SharedUniform}
    (hover : e.IsOver arguments table) (hu : table.find? e (arguments.map (·.id)) = some u) :
    u.expr.StandsFor e := by
  have hmem : u ∈ table := List.mem_of_find?_eq_some hu
  have hfound := List.find?_some hu
  simp only [Bool.and_eq_true, beq_iff_eq] at hfound
  obtain ⟨args, hargs, hover', -⟩ := h.exists_arguments hmem
  have hsame : args = arguments := by
    have hids : args.map (·.id) = arguments.map (·.id) := hargs.symm.trans hfound.2
    refine List.ext_getElem (by simpa using congrArg List.length hids) fun i hi hi' => ?_
    refine h.eq_of_id_eq (hover'.listed _ (List.getElem_mem hi))
      (hover.listed _ (List.getElem_mem hi')) ?_
    have hget := congrArg (fun l : List Nat => l[i]?) hids
    simpa [hi, hi'] using hget
  exact .inr ⟨hfound.1, by rw [hover'.operands, hover.operands, hsame]⟩

section

variable (hu : u ∈ table) (hv : v ∈ table)

include hu hv

/-- No entry has the root and the arguments of an entry before it. -/
theorem eq_of_sameRoot (hroot : u.expr.sameRoot v.expr) (hargs : u.arguments = v.arguments) :
    u = v := by
  induction h with
  | nil => simp at hu
  | @snoc table w _ hnew ih =>
    have habsent : ∀ e ∈ table, e.expr.sameRoot w.expr → e.arguments ≠ w.arguments := by
      intro e he hsame heq
      have hfind := List.find?_eq_none.mp hnew.absent e he
      simp [hsame, heq] at hfind
    rcases List.mem_append.mp hu with hold | hlast <;>
      rcases List.mem_append.mp hv with hold' | hlast'
    · exact ih hold hold'
    · obtain rfl := List.mem_singleton.mp hlast'
      exact absurd hargs (habsent u hold hroot)
    · obtain rfl := List.mem_singleton.mp hlast
      exact absurd hargs.symm (habsent v hold' (Uniform.sameRoot_comm _ _ ▸ hroot))
    · exact (List.mem_singleton.mp hlast).trans (List.mem_singleton.mp hlast').symm

/-- **Entries that agree throughout are one.** By induction on the entry: its arguments come before
it, so they are one with those of the other entry, and a root over the same places is found. -/
theorem eq_of_identical (huv : table.Identical u v) : u = v := by
  induction huv with
  | same => rfl
  | @alike u v hroot hlength harguments ih =>
    refine h.eq_of_sameRoot hu hv hroot (List.ext_getElem? fun n => ?_)
    obtain ⟨as, has, hover, -⟩ := h.exists_arguments hu
    obtain ⟨bs, hbs, hover', -⟩ := h.exists_arguments hv
    rw [has, hbs, List.length_map, List.length_map] at hlength
    rcases Nat.lt_or_ge n as.length with hlt | hge
    · have ha : as[n]? = some as[n] := List.getElem?_eq_getElem hlt
      have hb : bs[n]? = some bs[n] := List.getElem?_eq_getElem (hlength ▸ hlt)
      have hma := hover.listed _ (List.mem_of_getElem? ha)
      have hmb := hover'.listed _ (List.mem_of_getElem? hb)
      have heq : as[n] = bs[n] :=
        ih n _ _ _ _ (by simp [has, ha]) (by simp [hbs, hb]) (h.getElem?_id hma)
          (h.getElem?_id hmb) hma hmb
      simp [has, hbs, ha, hb, heq]
    · rw [has, hbs, List.getElem?_eq_none (by simpa using hge),
        List.getElem?_eq_none (by simpa [← hlength] using hge)]

/-- Entries whose expressions agree are identical: their operands are the expressions of their
arguments. -/
theorem identical_of_expr (huv : u.expr.identical v.expr) : table.Identical u v := by
  induction hn : u.id using Nat.strongRecOn generalizing u v with
  | ind n ih =>
    subst hn
    obtain ⟨hroot, hoperands⟩ := (Uniform.identical_iff _ _).mp huv
    obtain ⟨as, has, hover, hbefore⟩ := h.exists_arguments hu
    obtain ⟨bs, hbs, hover', -⟩ := h.exists_arguments hv
    rw [hover.operands, hover'.operands] at hoperands
    have hlength : as.length = bs.length := by simpa using hoperands.length_eq
    refine .alike hroot (by simp [has, hbs, hlength]) fun n i j a b hi hj ha hb => ?_
    simp only [has, hbs, List.getElem?_map, Option.map_eq_some_iff] at hi hj
    obtain ⟨a', ha', rfl⟩ := hi
    obtain ⟨b', hb', rfl⟩ := hj
    have hma := List.mem_of_getElem? ha'
    have hmb := List.mem_of_getElem? hb'
    obtain rfl : a' = a := Option.some.inj ((h.getElem?_id (hover.listed _ hma)).symm.trans ha)
    obtain rfl : b' = b := Option.some.inj ((h.getElem?_id (hover'.listed _ hmb)).symm.trans hb)
    refine ih _ (hbefore _ hma) (hover.listed _ hma) (hover'.listed _ hmb) ?_ rfl
    have hget := List.forall₂_iff_get.mp hoperands
    obtain ⟨hlt, rfl⟩ := List.getElem?_eq_some_iff.mp ha'
    obtain ⟨hlt', rfl⟩ := List.getElem?_eq_some_iff.mp hb'
    simpa using hget.2 n (by simpa using hlt) (by simpa using hlt')

/-- Entries whose expressions agree are one. -/
theorem eq_of_expr_identical (huv : u.expr.identical v.expr) : u = v :=
  h.eq_of_identical hu hv (h.identical_of_expr hu hv huv)

end

end

end Interned

end UniformTable

/-! ### Slots -/

/-- The slot of an entry is where the table has it. -/
theorem getElem?_addSlot (slots : List SharedUniform) (u : SharedUniform) :
    ∃ e, (addSlot slots u).2[(addSlot slots u).1]? = some e ∧ e.id = u.id := by
  unfold addSlot
  split
  case h_1 i hi =>
    obtain ⟨hlt, hid, -⟩ := List.findIdx?_eq_some_iff_getElem.mp hi
    exact ⟨slots[i], List.getElem?_eq_getElem hlt, by simpa using hid⟩
  case h_2 => exact ⟨u, by simp, rfl⟩

theorem mem_of_mem_addSlot {u v : SharedUniform} (h : v ∈ (addSlot slots u).2) :
    v ∈ slots ∨ v = u := by
  unfold addSlot at h
  split at h
  · exact .inl h
  · simpa using h

/-- Slots are added at the end. -/
theorem prefix_addSlot (slots : List SharedUniform) (u : SharedUniform) :
    slots <+: (addSlot slots u).2 := by
  unfold addSlot
  split
  · exact List.prefix_rfl
  · exact List.prefix_append _ _

/-- An entry has a slot at most once. -/
theorem nodup_addSlot {u : SharedUniform} (h : (slots.map (·.id)).Nodup) :
    ((addSlot slots u).2.map (·.id)).Nodup := by
  unfold addSlot
  split
  · exact h
  case h_2 hnone =>
    have habsent : u.id ∉ slots.map (·.id) := by
      intro hmem
      obtain ⟨e, he, hid⟩ := List.mem_map.mp hmem
      simpa [hid] using List.findIdx?_eq_none_iff.mp hnone e he
    simpa [List.nodup_append] using ⟨h, fun e he hid => habsent (hid ▸ List.mem_map_of_mem he)⟩

/-- The tables of slots hold each entry once, and no constant. -/
structure UniformSet.Slotted (set : UniformSet) : Prop where
  nodup : ∀ kind, ((set.table kind).map (·.id)).Nodup
  deferred : ∀ kind, ∀ u ∈ set.table kind, u.expr.isConstant = false

namespace UniformSet.Slotted

variable {set : UniformSet} {u : SharedUniform}

/-- An entry that is not constant is given a slot. -/
theorem addSlot (h : set.Slotted) (kind : SlotKind) (hu : u.expr.isConstant = false) :
    (set.withTable kind (addSlot (set.table kind) u).2).Slotted := by
  constructor
  · intro j
    by_cases hj : j = kind
    · subst hj
      rw [table_withTable_self]
      exact nodup_addSlot (h.nodup j)
    · rw [table_withTable_of_ne _ hj]
      exact h.nodup j
  · intro j v hv
    by_cases hj : j = kind
    · subst hj
      rw [table_withTable_self] at hv
      rcases mem_of_mem_addSlot hv with hv | rfl
      · exact h.deferred j v hv
      · exact hu
    · rw [table_withTable_of_ne _ hj] at hv
      exact h.deferred j v hv

/-- The place of an entry among the slots of a kind. -/
theorem index_eq (h : set.Slotted) {kind : SlotKind} {i j : Nat}
    (hi : (set.table kind)[i]? = some u) (hj : (set.table kind)[j]? = some u) : i = j := by
  obtain ⟨hlt, -⟩ := List.getElem?_eq_some_iff.mp hi
  have hid : ((set.table kind).map (·.id))[i]? = ((set.table kind).map (·.id))[j]? := by
    simp [hi, hj]
  exact (List.getElem?_inj (by simpa using hlt) (h.nodup kind)).mp hid

end UniformSet.Slotted

end ShaderGraph
