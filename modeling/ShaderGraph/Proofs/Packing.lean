import Mathlib.Data.List.Pairwise
import Mathlib.Data.List.Perm.Basic
import ShaderGraph.Proofs.FlagSets
import ShaderGraph.Proofs.Outcomes
import ShaderGraph.Proofs.Slots

/-!
# Interpolators are packed without overlap

The scalars of interpolators are numbered in the order in which the pixel stage first reads them.
The number settles which half of a texture coordinate a scalar is kept in, long before it is known
which coordinates the pixel stage leaves free. Those are given out in the end, two scalars to each,
to the interpolators in the order of their first scalars. Since the numbers have no gaps
(`Interpolator.Contiguous`), scalar `n` is then kept where the `n`-th scalar of all is, and no two
scalars are kept in one place (`Pass.run_packed`).
-/

namespace ShaderGraph

/-! ### Places of scalars -/

namespace Layout

/-- The coordinate of scalar `n` of those that are still to come. -/
def nth : Nat → Layout → Nat
  | 0, l => l.next.1
  | n + 1, l => nth n l.next.2

theorem take_fst (n : Nat) (l : Layout) : (take n l).1 = (List.range n).map (nth · l) := by
  induction n generalizing l with
  | zero => rfl
  | succ n ih =>
    rw [List.range_succ_eq_map, List.map_cons, List.map_map]
    exact congrArg (l.next.1 :: ·) (ih l.next.2)

theorem nth_take (m n : Nat) (l : Layout) : nth n (take m l).2 = nth (m + n) l := by
  induction m generalizing l with
  | zero => rw [Nat.zero_add]; rfl
  | succ m ih =>
    rw [Nat.add_right_comm]
    exact ih l.next.2

theorem take_take_snd (m n : Nat) (l : Layout) : (take n (take m l).2).2 = (take (m + n) l).2 := by
  induction m generalizing l with
  | zero => rw [Nat.zero_add]; rfl
  | succ m ih =>
    rw [Nat.add_right_comm]
    exact ih l.next.2

variable {used : FlagSet}

/-- A coordinate is given to two scalars, and the next ones are given others. -/
theorem nth_add_two (n : Nat) (used : FlagSet) :
    nth (n + 2) ⟨used, none⟩ = nth n ⟨used.insertLeast.2, none⟩ := rfl

/-- Scalars are kept in coordinates that were free. -/
theorem not_has_nth (n : Nat) : ¬ used.Has (nth n ⟨used, none⟩) := by
  induction n using Nat.twoStepInduction generalizing used with
  | zero => exact used.insertLeast_spec.1
  | one => exact used.insertLeast_spec.1
  | more n ih _ => exact fun hhas => ih ((used.insertLeast_spec.2.2 _).2 (.inl hhas))

/-- **Only two neighbours share a coordinate**, the second being the other half of the first. -/
theorem div_two_eq_of_nth_eq {m n : Nat} (h : nth m ⟨used, none⟩ = nth n ⟨used, none⟩) :
    m / 2 = n / 2 := by
  have hlater : ∀ (used : FlagSet) k, nth (k + 2) ⟨used, none⟩ ≠ used.insertLeast.1 :=
    fun used k heq =>
      not_has_nth k (nth_add_two k used ▸ (used.insertLeast_spec.2.2 _).2 (.inr heq))
  induction m using Nat.twoStepInduction generalizing used n with
  | zero | one =>
    match n with
    | 0 | 1 => rfl
    | k + 2 => exact absurd h.symm (hlater used k)
  | more m ih _ =>
    match n with
    | 0 | 1 => exact absurd h (hlater used m)
    | k + 2 =>
      have hrest : m / 2 = k / 2 := ih h
      omega

end Layout

/-! ### Numbers of scalars -/

namespace Interpolator

/-- The number of the first scalar of an interpolator that was read. -/
def start (i : Interpolator) : Nat := i.offset.getD 0

/-- The number of scalars of interpolators. -/
def total : List Interpolator → Nat
  | [] => 0
  | i :: rest => i.size + total rest

theorem total_concat (l : List Interpolator) (i : Interpolator) :
    total (l ++ [i]) = total l + i.size := by
  induction l with
  | nil => simp [total]
  | cons j rest ih => simp [total, ih, Nat.add_assoc]

/-- The scalars of interpolators are numbered one after the other, from a number on. -/
def Contiguous : Nat → List Interpolator → Prop
  | _, [] => True
  | n, i :: rest => (0 < i.size → i.start = n) ∧ Contiguous (n + i.size) rest

/-- Interpolators have a scalar in common only if they are the same. -/
def Apart (i j : Interpolator) : Prop :=
  ∀ c < i.size, ∀ d < j.size, i.start + c = j.start + d → i = j

instance : Std.Symm Apart := ⟨fun _ _ h d hd c hc heq => (h c hc d hd heq.symm).symm⟩

namespace Contiguous

variable {l : List Interpolator} {n : Nat}

theorem concat (h : Contiguous n l) {i : Interpolator} (hi : i.start = n + total l) :
    Contiguous n (l ++ [i]) := by
  induction l generalizing n with
  | nil => exact ⟨fun _ => hi, trivial⟩
  | cons j rest ih =>
    exact ⟨h.1, ih h.2 (by rw [hi, total, Nat.add_assoc])⟩

theorem le_start (h : Contiguous n l) : ∀ i ∈ l, 0 < i.size → n ≤ i.start := by
  induction l generalizing n with
  | nil => simp
  | cons j rest ih =>
    intro i hi hsize
    rcases List.mem_cons.mp hi with rfl | hi
    · exact Nat.le_of_eq (h.1 hsize).symm
    · exact Nat.le_trans (Nat.le_add_right _ _) (ih h.2 i hi hsize)

/-- What follows an interpolator starts where it ends, or later. -/
theorem pairwise (h : Contiguous n l) :
    l.Pairwise fun i j => 0 < i.size → 0 < j.size → i.start + i.size ≤ j.start := by
  induction l generalizing n with
  | nil => exact .nil
  | cons i rest ih =>
    refine .cons (fun j hj hi hsize => ?_) (ih h.2)
    rw [h.1 hi]
    exact h.2.le_start j hj hsize

theorem apart (h : Contiguous n l) : ∀ i ∈ l, ∀ j ∈ l, Apart i j := by
  have hpairs : l.Pairwise Apart := h.pairwise.imp fun {i j} hij c hc d hd heq => by
    omega
  intro i hi j hj
  exact hpairs.forall_of_forall (fun _ _ _ _ _ _ _ => rfl) hi hj

/-- Interpolators without scalars do not matter. -/
theorem filter_iff :
    Contiguous n (l.filter fun i => 0 < i.size) ↔ Contiguous n l := by
  induction l generalizing n with
  | nil => rfl
  | cons i rest ih =>
    by_cases hsize : 0 < i.size
    · rw [List.filter_cons_of_pos (by simpa using hsize)]
      exact and_congr_right fun _ => ih
    · rw [List.filter_cons_of_neg (by simpa using hsize), ih]
      obtain hzero : i.size = 0 := by omega
      simp [Contiguous, hzero]

end Contiguous

/-! ### The order of interpolators -/

theorem insertByOffset_perm (i : Interpolator) (l : List Interpolator) :
    (insertByOffset i l).Perm (i :: l) := by
  induction l with
  | nil => exact .refl _
  | cons j rest ih =>
    unfold insertByOffset
    split
    · exact .refl _
    · exact (ih.cons j).trans (.swap i j rest)

theorem pairwise_insertByOffset (i : Interpolator) {l : List Interpolator}
    (h : l.Pairwise fun a b => a.start ≤ b.start) :
    (insertByOffset i l).Pairwise fun a b => a.start ≤ b.start := by
  induction l with
  | nil => exact List.pairwise_singleton _ _
  | cons j rest ih =>
    obtain ⟨hj, hrest⟩ := List.pairwise_cons.mp h
    unfold insertByOffset
    split
    case isTrue hlt =>
      refine .cons (fun k hk => ?_) h
      rcases List.mem_cons.mp hk with rfl | hk
      · exact Nat.le_of_lt hlt
      · exact Nat.le_trans (Nat.le_of_lt hlt) (hj k hk)
    case isFalse hge =>
      refine .cons (fun k hk => ?_) (ih hrest)
      rcases List.mem_cons.mp ((insertByOffset_perm i rest).mem_iff.mp hk) with rfl | hk
      · exact Nat.le_of_not_lt hge
      · exact hj k hk

theorem sortByOffset_perm (l : List Interpolator) : (sortByOffset l).Perm l := by
  have hfold : ∀ sorted : List Interpolator,
      (l.foldl (fun sorted i => insertByOffset i sorted) sorted).Perm (sorted ++ l) := by
    induction l with
    | nil => simp
    | cons i rest ih =>
      intro sorted
      refine (ih _).trans (((insertByOffset_perm i sorted).append_right rest).trans ?_)
      exact List.perm_middle.symm
  exact hfold []

theorem pairwise_sortByOffset (l : List Interpolator) :
    (sortByOffset l).Pairwise fun a b => a.start ≤ b.start := by
  have hfold : ∀ sorted : List Interpolator, (sorted.Pairwise fun a b => a.start ≤ b.start) →
      (l.foldl (fun sorted i => insertByOffset i sorted) sorted).Pairwise
        fun a b => a.start ≤ b.start := by
    induction l with
    | nil => exact fun sorted h => h
    | cons i rest ih => exact fun sorted h => ih _ (pairwise_insertByOffset i h)
  exact hfold [] .nil

/-- **The order of the offsets is the order of reading**, but for interpolators without scalars. -/
theorem Contiguous.sortByOffset {order l : List Interpolator} (h : Contiguous 0 order)
    (hperm : order.Perm l) : Contiguous 0 (sortByOffset l) := by
  have hpos := Contiguous.filter_iff.mpr h
  have hsame : ((Interpolator.sortByOffset l).filter fun i => 0 < i.size) =
      order.filter fun i => 0 < i.size := by
    have hall := ((sortByOffset_perm l).trans hperm.symm).filter fun i => 0 < i.size
    have hsize : ∀ {l : List Interpolator} {i}, i ∈ l.filter (fun i => 0 < i.size) → 0 < i.size :=
      fun hi => by simpa using (List.mem_filter.mp hi).2
    have hsorted := (pairwise_sortByOffset l).filter fun i => 0 < i.size
    have hread : (order.filter fun i => 0 < i.size).Pairwise fun a b => a.start ≤ b.start :=
      hpos.pairwise.imp_of_mem fun ha hb hab =>
        Nat.le_of_add_right_le (hab (hsize ha) (hsize hb))
    exact hall.eq_of_pairwise (fun a b ha hb hab hba =>
      hpos.apart a (hall.mem_iff.mp ha) b hb 0 (hsize ha) 0 (hsize hb) (Nat.le_antisymm hab hba))
      hsorted hread
  exact Contiguous.filter_iff.mp (hsame ▸ hpos)

/-- The places of an interpolator, if scalars are kept where the numbered ones are. -/
def places (i : Interpolator) (l : Layout) : List Nat :=
  (List.range i.size).map fun c => Layout.nth (i.start + c) l

end Interpolator

/-- Interpolators whose scalars are numbered without gaps are given the places of their numbers. -/
theorem Layout.assign_fst {l : List Interpolator} {n : Nat} (h : Interpolator.Contiguous n l)
    (first : Layout) :
    (assign l (take n first).2).1 = l.map fun i => (i, i.places first) := by
  induction l generalizing n with
  | nil => rfl
  | cons i rest ih =>
    have hplaces : (take i.size (take n first).2).1 = i.places first := by
      rw [take_fst]
      refine List.map_congr_left fun c hc => ?_
      have hsize : 0 < i.size := Nat.lt_of_le_of_lt (Nat.zero_le c) (List.mem_range.mp hc)
      rw [nth_take, h.1 hsize]
    have hrest := ih h.2
    rw [← take_take_snd] at hrest
    simp only [assign, hplaces, hrest, List.map_cons]

/-! ### What a compilation reads -/

/-- An element that is not selected is replaced by one that is. -/
theorem filter_set_perm {α : Type} {f : α → Bool} {l : List α} {k : Nat} {a b : α}
    (ha : l[k]? = some a) (hout : f a = false) (hin : f b = true) :
    (l.filter f ++ [b]).Perm ((l.set k b).filter f) := by
  induction l generalizing k with
  | nil => simp at ha
  | cons c rest ih =>
    cases k with
    | zero =>
      obtain rfl : c = a := by simpa using ha
      simp [hout, hin]
    | succ k =>
      have hrest := ih (by simpa using ha)
      by_cases hc : f c = true
      · simpa [hc] using hrest
      · simpa [hc] using hrest

namespace Pass

open Interpolator

/-- Interpolators have the numbers of their places, and the scalars of those that were read are
numbered without gaps, in some order. -/
structure Packed (p : Pass) : Prop where
  numbered : ∀ (k : Nat) (i : Interpolator), p.interpolators[k]? = some i → i.index = k
  ordered : ∃ order : List Interpolator, order.Perm (p.interpolators.filter (·.offset.isSome)) ∧
    Contiguous 0 order ∧ p.interpolatedScalars = total order

namespace Packed

variable {p q : Pass} {i : Interpolator}

theorem of_records (hp : p.Packed) (h : q.records = p.records) : q.Packed := by
  have hinterpolators : q.interpolators = p.interpolators := congrArg RecordState.interpolators h
  have hscalars : q.interpolatedScalars = p.interpolatedScalars :=
    congrArg RecordState.interpolatedScalars h
  exact ⟨hinterpolators ▸ hp.numbered, hinterpolators ▸ hscalars ▸ hp.ordered⟩

theorem newInterpolator (hp : p.Packed) (hindex : i.index = p.interpolators.length)
    (hunread : i.offset = none) : Packed { p with interpolators := p.interpolators ++ [i] } := by
  refine ⟨fun k j hj => ?_, ?_⟩
  · rcases Nat.lt_or_ge k p.interpolators.length with hlt | hge
    · exact hp.numbered k j ((List.getElem?_append_left hlt).symm.trans hj)
    · obtain ⟨rfl, rfl⟩ : p.interpolators.length = k ∧ i = j := by
        have hj := (List.getElem?_append_right hge).symm.trans hj
        obtain ⟨hlt, heq⟩ := List.getElem?_eq_some_iff.mp hj
        simp only [List.length_singleton] at hlt
        exact ⟨by omega, by simpa using heq⟩
      exact hindex
  · simpa [hunread] using hp.ordered

/-- What is read first is put after all that was read before. -/
theorem readInterpolator (hp : p.Packed) {k : Nat} (hi : p.interpolators[k]? = some i)
    (hunread : i.offset = none) :
    Packed { p with
      interpolators := p.interpolators.set k { i with offset := some p.interpolatedScalars },
      interpolatedScalars := p.interpolatedScalars + i.size } := by
  refine ⟨fun j other hj => ?_, ?_⟩
  · by_cases hkj : k = j
    · subst hkj
      obtain ⟨hlt, -⟩ := List.getElem?_eq_some_iff.mp hi
      obtain rfl := Option.some.inj ((List.getElem?_set_self hlt).symm.trans hj)
      exact hp.numbered k i hi
    · exact hp.numbered j other ((List.getElem?_set_ne hkj).symm.trans hj)
  · obtain ⟨order, hperm, hcontiguous, htotal⟩ := hp.ordered
    refine ⟨order ++ [{ i with offset := some p.interpolatedScalars }], ?_, ?_, ?_⟩
    · exact (hperm.append_right _).trans (filter_set_perm hi (by simp [hunread]) (by simp))
    · exact hcontiguous.concat (htotal.trans (Nat.zero_add _).symm)
    · rw [total_concat, ← htotal]
      rfl

theorem step (hp : p.Packed) (h : Step p q) : q.Packed := by
  cases h with
  | effect h =>
    cases h with
    | idle _ hrecords => exact hp.of_records hrecords
    | newInterpolator hindex hunread => exact hp.newInterpolator hindex hunread
    | readInterpolator hi hunread => exact hp.readInterpolator hi hunread
    | _ => exact ⟨hp.numbered, hp.ordered⟩
  | _ => exact ⟨hp.numbered, hp.ordered⟩

end Packed

namespace Reaches

variable {p q : Pass}

theorem packed (h : Reaches {} p) : p.Packed :=
  h.invariant (fun _ _ hstep hp => hp.step hstep) ⟨by simp, [], by simp, trivial, rfl⟩

/-- An interpolator that was read stays as it is. -/
theorem getElem?_interpolators (h : p.Reaches q) {k : Nat} {i : Interpolator}
    (hi : p.interpolators[k]? = some i) (hread : i.offset.isSome) :
    q.interpolators[k]? = some i := by
  refine h.invariant (P := fun q => q.interpolators[k]? = some i) (fun p q hstep hi => ?_) hi
  cases hstep with
  | effect h =>
    cases h with
    | idle _ hrecords =>
      have hsame : q.interpolators = p.interpolators := congrArg RecordState.interpolators hrecords
      exact hsame ▸ hi
    | newInterpolator => exact getElem?_of_prefix (List.prefix_append _ _) hi
    | @readInterpolator j other hother hunread =>
      have hne : j ≠ k := by
        rintro rfl
        cases hother.symm.trans hi
        simp [hunread] at hread
      exact (List.getElem?_set_ne hne).trans hi
    | _ => exact hi
  | _ => exact hi

/-- A texture coordinate that was read stays among those. -/
theorem has_pixelCoordinates (h : p.Reaches q) {i : Nat} (hi : p.pixelCoordinates.Has i) :
    q.pixelCoordinates.Has i := by
  refine h.invariant (P := fun q => q.pixelCoordinates.Has i) (fun p q hstep hi => ?_) hi
  cases hstep with
  | effect h =>
    cases h with
    | idle _ hrecords =>
      have hsame : q.pixelCoordinates = p.pixelCoordinates :=
        congrArg RecordState.pixelCoordinates hrecords
      exact hsame ▸ hi
    | coordinate j => exact hi.insert j
    | _ => exact hi
  | _ => exact hi

theorem textAt? (h : p.Reaches q) {k : Nat} {c : Code} {t : String}
    (ht : p.textAt? k c = some t) : q.textAt? k c = some t := by
  obtain ⟨i, rfl, hi⟩ := Option.bind_eq_some_iff.mp ht
  obtain ⟨d, hd, rfl⟩ := Option.map_eq_some_iff.mp hi
  exact Option.map_eq_some_iff.mpr ⟨d, getElem?_of_prefix (h.retains.scopes k) hd, rfl⟩

end Reaches

/-! ### Where interpolators are kept -/

namespace Packed

variable {p : Pass}

theorem contiguous (hp : p.Packed) :
    Contiguous 0 (sortByOffset (p.interpolators.filter (·.offset.isSome))) := by
  obtain ⟨order, hperm, hcontiguous, -⟩ := hp.ordered
  exact hcontiguous.sortByOffset hperm

/-- Scalars are kept where the numbered ones are. -/
theorem layout_eq (hp : p.Packed) :
    p.layout.1 = (sortByOffset (p.interpolators.filter (·.offset.isSome))).map fun i =>
      (i, i.places ⟨p.pixelCoordinates, none⟩) :=
  Layout.assign_fst hp.contiguous ⟨p.pixelCoordinates, none⟩

theorem map_fst_layout (hp : p.Packed) :
    p.layout.1.map (·.1) = sortByOffset (p.interpolators.filter (·.offset.isSome)) := by
  rw [hp.layout_eq, List.map_map]
  exact List.map_id _

theorem mem_layout (hp : p.Packed) {x : Interpolator × List Nat} :
    x ∈ p.layout.1 ↔ ∃ i ∈ sortByOffset (p.interpolators.filter (·.offset.isSome)),
      (i, i.places ⟨p.pixelCoordinates, none⟩) = x := by
  rw [hp.layout_eq, List.mem_map]

/-- No interpolator is laid out twice. -/
theorem nodup_index (hp : p.Packed) : (p.layout.1.map (·.1.index)).Nodup := by
  have hall : (p.interpolators.map (·.index)).Nodup := by
    have hrange : p.interpolators.map (·.index) = List.range p.interpolators.length := by
      refine List.ext_getElem? fun k => ?_
      rw [List.getElem?_map]
      rcases Nat.lt_or_ge k p.interpolators.length with hlt | hge
      · have hk := List.getElem?_eq_getElem hlt
        rw [hk, List.getElem?_range hlt, Option.map_some, hp.numbered k _ hk]
      · simp [hge]
    exact hrange ▸ List.nodup_range
  have hread : ((p.interpolators.filter (·.offset.isSome)).map (·.index)).Nodup :=
    hall.sublist (List.filter_sublist.map _)
  have hperm := (sortByOffset_perm (p.interpolators.filter (·.offset.isSome))).map (·.index)
  rw [← hp.map_fst_layout, List.map_map] at hperm
  exact hperm.nodup_iff.mpr hread

end Packed

end Pass

/-- Where component `c` of an interpolator is kept, given the places of its components: a texture
coordinate, and which of its two scalars. -/
def Interpolator.location? (i : Interpolator) (places : List Nat) (c : Nat) : Option (Nat × Nat) :=
  (places[c]?).map fun place => (place, (i.start + c) % 2)

/-- A component is kept where the scalar of its number is. -/
theorem Interpolator.location?_places {i : Interpolator} {l : Layout} {c : Nat}
    {location : Nat × Nat} (h : i.location? (i.places l) c = some location) :
    c < i.size ∧ location = (Layout.nth (i.start + c) l, (i.start + c) % 2) := by
  obtain ⟨place, hplace, rfl⟩ := Option.map_eq_some_iff.mp h
  rw [Interpolator.places, List.getElem?_map] at hplace
  obtain ⟨c', hc', rfl⟩ := Option.map_eq_some_iff.mp hplace
  obtain ⟨hlt, rfl⟩ := List.getElem?_eq_some_iff.mp hc'
  exact ⟨by simpa using hlt, by rw [List.getElem_range]⟩

namespace Pass

/-- **No two components are kept in one place.** -/
theorem Packed.location_inj {p : Pass} (hp : p.Packed) {x y : Interpolator × List Nat}
    (hx : x ∈ p.layout.1) (hy : y ∈ p.layout.1) {c d : Nat} {location : Nat × Nat}
    (hc : x.1.location? x.2 c = some location) (hd : y.1.location? y.2 d = some location) :
    x = y ∧ c = d := by
  obtain ⟨i, hi, rfl⟩ := hp.mem_layout.mp hx
  obtain ⟨j, hj, rfl⟩ := hp.mem_layout.mp hy
  obtain ⟨hci, rfl⟩ := Interpolator.location?_places (i := i) hc
  obtain ⟨hdj, heq⟩ := Interpolator.location?_places (i := j) hd
  obtain ⟨hplace, hhalf⟩ := Prod.mk.inj heq
  -- The coordinate settles the number of a scalar up to its half, and the half the rest.
  have hpair := Layout.div_two_eq_of_nth_eq hplace
  have hnumber : i.start + c = j.start + d := by omega
  obtain rfl := hp.contiguous.apart i hi j hj c hci d hdj hnumber
  exact ⟨rfl, by omega⟩

end Pass

/-! ### Reading -/

namespace Context

open Pass

variable {p : Pass} {ctx : Context}

/-- A set of texture coordinates that another stage than the vertex stage reads is kept as read. -/
theorem textureCoordinate_gives (hstage : ctx.stage ≠ .vertex) (index : Int) (mirror : Mirror) :
    p.Gives (ctx.textureCoordinate index mirror) fun c q =>
      c.isSome → 0 ≤ index ∧ q.pixelCoordinates.Has index.toNat := by
  unfold textureCoordinate
  split
  case isTrue => exact report_codeless _
  case isFalse hrange =>
    have hindex : 0 ≤ index := by
      simp only [Bool.or_eq_true, decide_eq_true_eq, not_or] at hrange
      omega
    have hemit : ∀ (p : Pass) text, p.pixelCoordinates.Has index.toNat →
        p.Gives (ctx.emitInline .float2 text) fun c q =>
          c.isSome → 0 ≤ index ∧ q.pixelCoordinates.Has index.toNat := by
      refine fun p text hp => (emitInline_gives _ text).mono fun c q hc _ => ⟨hindex, ?_⟩
      obtain ⟨-, -, rfl⟩ | ⟨-, -, rfl⟩ := hc
      · exact hp
      · exact hp
    refine .modify_bind ?_
    split
    · exact hemit _ _ (FlagSet.has_insert_self _ _)
    · exact hemit _ _ (FlagSet.has_insert_self _ _)

/-- An interpolator that is read has its offset from then on. -/
theorem interpolatorOffset_gives {k : Nat} {i : Interpolator}
    (hi : p.interpolators[k]? = some i) :
    p.Gives (interpolatorOffset k i) fun n q =>
      q.interpolators[k]? = some { i with offset := some n } ∧ q.scopes = p.scopes := by
  unfold interpolatorOffset
  split
  case h_1 n hn =>
    refine .pure ⟨?_, rfl⟩
    rw [← hn]
    exact hi
  case h_2 =>
    obtain ⟨hlt, -⟩ := List.getElem?_eq_some_iff.mp hi
    exact .get_bind (.set_bind (.pure ⟨List.getElem?_set_self hlt, rfl⟩))

/-- The pixel stage reads an interpolator of the list, at the places of its numbers. -/
theorem readInterpolator_gives (hscope : ctx.scope < p.scopes.length) :
    p.Gives ctx.readInterpolator fun c q => c.isSome → ∃ (k : Nat) (i : Interpolator) (n : Nat),
      q.interpolators[k]? = some i ∧ i.node = ctx.node ∧ i.offset = some n ∧
      q.textAt? ctx.scope c = some (i.readText n) := by
  unfold readInterpolator
  split
  · exact report_codeless _
  refine .get_bind ?_
  split
  case h_1 k hk =>
    split
    case h_2 => exact report_codeless _
    case h_1 i hi =>
      have hnode : i.node = ctx.node := by
        obtain ⟨hlt, hfound, -⟩ := List.findIdx?_eq_some_iff_getElem.mp hk
        exact (List.getElem?_eq_some_iff.mp hi).2 ▸ eq_of_beq hfound
      refine (interpolatorOffset_gives hi).bind fun n q hq => ?_
      obtain ⟨hread, hscopes⟩ := hq
      intro c r hr hsome
      obtain ⟨htext, hkept⟩ := emitWith_text (hscopes ▸ hscope) _ _ _ c r hr hsome
      exact ⟨k, { i with offset := some n }, n, hkept ▸ hread, hnode, rfl, htext⟩
  case h_2 => exact Gives.bind (fun _ _ _ => trivial) fun _ q _ => report_codeless _

end Context

/-! ### What is printed -/

/-- A text stands within another. -/
def Text.Within (part text : String) : Prop := ∃ before after, text = before ++ part ++ after

namespace Text.Within

variable {part text : String} {ts : List String}

theorem append (h : Within part text) (s : String) : Within part (text ++ s) := by
  obtain ⟨before, after, rfl⟩ := h
  exact ⟨before, after ++ s, by simp only [String.append_assoc]⟩

theorem prepend (h : Within part text) (s : String) : Within part (s ++ text) := by
  obtain ⟨before, after, rfl⟩ := h
  exact ⟨s ++ before, after, by simp only [String.append_assoc]⟩

theorem join (h : Within part text) (ht : text ∈ ts) : Within part (String.join ts) := by
  obtain ⟨before, after, rfl⟩ := List.append_of_mem ht
  rw [String.join_append, String.join_cons]
  exact (h.append _).prepend _

theorem intercalate (h : Within part text) (ht : text ∈ ts) (sep : String) :
    Within part (sep.intercalate ts) := by
  induction ts with
  | nil => cases ht
  | cons t ts ih =>
    cases ts with
    | nil => simpa using List.mem_singleton.mp ht ▸ h
    | cons u us =>
      rw [String.intercalate_cons_cons, String.append_assoc]
      rcases List.mem_cons.mp ht with rfl | ht
      · exact h.append _
      · exact ((ih ht).prepend _).prepend _

end Text.Within

/-- The source has the defines of a layout, and the lines that write the interpolators. -/
theorem Shader.Parts.within_source (s : Parts) :
    Text.Within (String.join (s.pass.layout.1.map fun x => x.1.layoutText x.2)) s.source ∧
      Text.Within (String.join (s.pass.interpolators.map Interpolator.assignments)) s.source := by
  have hself (part : String) : Text.Within part part := ⟨"", "", by simp⟩
  have hdefines : Text.Within (String.join (s.pass.layout.1.map fun x => x.1.layoutText x.2))
      s.preamble := ((hself _).prepend _).append _
  have hwrites (signature : String) :
      Text.Within (String.join (s.pass.interpolators.map Interpolator.assignments))
        (braced signature (s.coordinateAssignments ++ s.interpolatorAssignments)) :=
    (((hself _).prepend _).prepend _).append _
  have hlast : ∃ signature, braced signature (s.coordinateAssignments ++
      s.interpolatorAssignments) ∈ s.functions := ⟨_, List.mem_of_getElem? (i := 10) rfl⟩
  obtain ⟨signature, hmem⟩ := hlast
  constructor
  · -- The preamble comes first, and eight pieces after it.
    iterate 8 refine Text.Within.append ?_ _
    exact hdefines
  · exact ((hwrites signature).intercalate (List.mem_append_left _ hmem) _).prepend _

/-- What a shader says of component `c` of an interpolator that is kept at a location: the define
has the coordinate, and the place where it is read and written the half. -/
structure Interpolator.Prints (i : Interpolator) (places : List Nat) (c : Nat)
    (location : Nat × Nat) : Prop where
  coordinate : Text.Within (defineNumber (i.coordinateName c) "\t" location.1) (i.layoutText places)
  half : ∀ offset, i.offset = some offset → i.place offset c =
    "TexCoords[" ++ i.coordinateName c ++ "]." ++ componentLetter "xy" location.2

theorem Interpolator.prints {i : Interpolator} {places : List Nat} {c : Nat} {location : Nat × Nat}
    (h : i.location? places c = some location) : i.Prints places c location := by
  obtain ⟨place, hplace, rfl⟩ := Option.map_eq_some_iff.mp h
  refine ⟨.append (.prepend (.join ⟨"", "", rfl⟩ ?_) _) _, fun offset hoffset => ?_⟩
  · exact List.mem_map.mpr ⟨(place, c), List.mk_mem_zipIdx_iff_getElem?.mpr hplace, by simp⟩
  · simp only [Interpolator.place, start, hoffset, Option.getD_some]

namespace Pass

/-- The pixel stage reads an interpolator with code of its scope, component by component from the
places where the vertex stage writes them. -/
def ReadsInterpolator (p : Pass) (ctx : Context) (c : Nat) (i : Interpolator) : Prop :=
  ∃ offset, i.node = ctx.node ∧ i.offset = some offset ∧
    p.textAt? ctx.scope (some c) = some (i.type.sourceName ++ "(" ++ ", ".intercalate
      ((List.range i.size).map fun c => "Parameters." ++ i.place offset c) ++ ")") ∧
    i.assignments = String.join ((List.range i.size).map fun c =>
      "\tOut" ++ i.place offset c ++ s!" = VertexInterpolator{i.index}(Parameters)." ++
        componentLetter "xyzw" c ++ ";\n")

/-- Where the interpolators of an outcome are kept. -/
structure LaysOut (env : Environment) (g? : Option Graph) (o : Outcome) (p : Pass) : Prop
    extends EndsIn env g? o p where
  listed : (p.layout.1.map (·.1)).Perm (p.interpolators.filter (·.offset.isSome))
  distinct : (p.layout.1.map (·.1.index)).Nodup
  complete : ∀ x ∈ p.layout.1, x.2.length = x.1.size
  apart : ∀ x ∈ p.layout.1, ∀ y ∈ p.layout.1, ∀ c d location,
    x.1.location? x.2 c = some location → y.1.location? y.2 d = some location → x = y ∧ c = d
  printed : ∀ x ∈ p.layout.1, ∀ c location, x.1.location? x.2 c = some location →
    x.1.Prints x.2 c location
  free : ∀ x ∈ p.layout.1, ∀ place ∈ x.2, ¬ p.pixelCoordinates.Has place
  coordinate : ∀ (ctx : Context) (index : Int) (mirror : Mirror) (q r : Pass) (c : Nat),
    ctx.stage ≠ .vertex → ctx.textureCoordinate index mirror q = .ok (some c) r →
      r.Reaches p → 0 ≤ index ∧ p.pixelCoordinates.Has index.toNat
  /-- What is read on the way to a state with the interpolators of the last one is laid out. -/
  read : ∀ (ctx : Context) (q r e : Pass) (c : Nat), ctx.scope < q.scopes.length →
    ctx.readInterpolator q = .ok (some c) r → r.Reaches e → e.interpolators = p.interpolators →
      ∃ x ∈ p.layout.1, e.ReadsInterpolator ctx c x.1
  source : g?.isSome → o.source = (o.parts env p).source ∧
    Text.Within (String.join (p.layout.1.map fun x => x.1.layoutText x.2)) o.source ∧
    Text.Within (String.join (p.interpolators.map Interpolator.assignments)) o.source

/-- **Interpolators are packed without overlap.** When a compilation ends, the interpolators that
the pixel stage has read are laid out, each once, with a place for each of its components. No two
components are kept in one half of one coordinate, and in none that is read outside of the vertex
stage, and this is what the shader says. Wherever the pixel stage reads an interpolator, the code
that reads it names the same places, component by component, as the lines that write it in the
vertex stage. -/
theorem run_packed (env : Environment) (g? : Option Graph) {o : Outcome} {p : Pass}
    (h : run env (g?.map Graph.expressions) {} = .ok o p) : LaysOut env g? o p := by
  have hends := run_endsIn g? h
  have hp := hends.reached.packed
  refine ⟨hends, hp.map_fst_layout ▸ Interpolator.sortByOffset_perm _, hp.nodup_index, ?_,
    fun x hx y hy c d location hc hd => hp.location_inj hx hy hc hd, fun x _ c location =>
    Interpolator.prints, ?_, ?_, ?_, ?_⟩
  · intro x hx
    obtain ⟨i, -, rfl⟩ := hp.mem_layout.mp hx
    simp [Interpolator.places]
  · intro x hx place hplace
    obtain ⟨i, -, rfl⟩ := hp.mem_layout.mp hx
    obtain ⟨c, -, rfl⟩ := List.mem_map.mp hplace
    exact Layout.not_has_nth _
  · intro ctx index mirror q r c hstage hread hrest
    obtain ⟨hindex, hhas⟩ := Context.textureCoordinate_gives hstage index mirror _ _ hread rfl
    exact ⟨hindex, hrest.has_pixelCoordinates hhas⟩
  · intro ctx q r e c hscope hread hrest hsame
    obtain ⟨k, i, n, hi, hnode, hn, htext⟩ :=
      Context.readInterpolator_gives hscope _ _ hread rfl
    have hi := hsame ▸ hrest.getElem?_interpolators hi (by simp [hn])
    have hmem : i ∈ p.interpolators.filter (·.offset.isSome) :=
      List.mem_filter.mpr ⟨List.mem_of_getElem? hi, by simp [hn]⟩
    refine ⟨_, hp.mem_layout.mpr ⟨i, (Interpolator.sortByOffset_perm _).mem_iff.mpr hmem, rfl⟩, n,
      hnode, hn, hrest.textAt? htext, ?_⟩
    simp only [Interpolator.assignments, hn]
  · cases g? with
    | none => exact fun hnone => (by cases hnone)
    | some g =>
      have hsource := (run_completed g.expressions_safe h).source
      exact fun _ => ⟨hsource, hsource ▸ (o.parts env p).within_source⟩

/-- A vector and a scalar that are interpolated, and a set of texture coordinates. -/
def interwoven : Graph where
  nodes := [.worldPosition .plain, .vertexInterpolator ⟨1, 0⟩, .pixelDepth,
    .vertexInterpolator ⟨3, 0⟩, .textureCoordinate 0 .none .one .one]

/-- The material that reads the scalar before the vector. -/
def interwovenMaterial : Environment where
  material :=
    { inputs := (((PropertyTable.const Input.none).set .emissiveColor ⟨4, 0⟩).set .baseColor
        ⟨2, 0⟩).set .roughness ⟨5, 0⟩,
      interpolators := [2, 4] }

/-- Where the pixel stage compiles the vector. -/
def interwovenReader (p : Pass) : Context :=
  { propertyContext interwovenMaterial .baseColor (p.stageScopes.get .pixel) with node := 2 }

/-- The scalar is kept in the first free half, and the vector after it, in the other half and in the
next coordinate. Where the pixel stage compiles the vector, it is read from there. -/
theorem run_packed_interwoven :
    ∃ o p q c r, run interwovenMaterial (some interwoven.expressions) {} = .ok o p ∧
      p.layout.1.map (fun x => (x.1.index, x.2)) = [(1, [1]), (0, [1, 2, 2])] ∧
      LaysOut interwovenMaterial (some interwoven) o p ∧ Reaches {} q ∧ q.Reaches p ∧
      q.interwovenReader.readInterpolator q = .ok (some c) r ∧
      ∃ x ∈ p.layout.1, r.ReadsInterpolator q.interwovenReader c x.1 := by
  obtain ⟨o, p, h, hlayout, q, hq, hscope, code, r, hread, hsome, hsame⟩ :
      ∃ o p, run interwovenMaterial (some interwoven.expressions) {} = .ok o p ∧
        p.layout.1.map (fun x => (x.1.index, x.2)) = [(1, [1]), (0, [1, 2, 2])] ∧
        ∃ q, run interwovenMaterial (some (interwoven.barred 2 .noSuchStage)) {} =
          .error .noSuchStage q ∧ q.interwovenReader.scope < q.scopes.length ∧
        ∃ code r, q.interwovenReader.readInterpolator q = .ok code r ∧ code.isSome ∧
          r.interpolators = p.interpolators := by
    decide +kernel
  obtain ⟨c, rfl⟩ := Option.isSome_iff_exists.mp hsome
  have hlaid := run_packed interwovenMaterial (some interwoven) h
  obtain ⟨hreached, hrest⟩ := Graph.barred_waypoint h hq
  exact ⟨o, p, q, c, r, h, hlayout, hlaid, hreached, hrest, hread,
    hlaid.read _ _ _ r c hscope hread (.refl r) hsame⟩

end Pass

end ShaderGraph
