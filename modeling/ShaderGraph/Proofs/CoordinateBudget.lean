import ShaderGraph.Proofs.Packing
import ShaderGraph.Proofs.Scoping

/-!
# The budget of interpolators bounds the texture coordinates

The budget is checked in scalars: two for each coordinate up to the last one that is read, and those
of the interpolators. The coordinates are given out later, the free ones first and two scalars to
each. Since the least free coordinate is at most the bound of those in use, each one that is given
out moves the bound by one at most, whatever gaps there are (`Layout.bound_take_le`). So the
coordinates of a compilation that succeeds are within the budget (`Pass.run_coordinates_le`).
-/

namespace ShaderGraph

/-! ### Giving out coordinates -/

namespace Layout

/-- Two scalars move the bound of the coordinates by one at most. -/
theorem bound_take_le (n : Nat) (used : FlagSet) :
    (take n ⟨used, none⟩).2.used.bound ≤ used.bound + (n + 1) / 2 := by
  induction n using Nat.twoStepInduction generalizing used with
  | zero => exact Nat.le_add_right _ _
  | one => exact used.bound_insertLeast_le
  | more n ih _ =>
    have hrest : (take (n + 2) ⟨used, none⟩).2.used.bound ≤
        used.insertLeast.2.bound + (n + 1) / 2 := ih used.insertLeast.2
    have hfirst := used.bound_insertLeast_le
    omega

/-- Interpolators take as many coordinates as all their scalars. -/
theorem assign_snd (l : List Interpolator) (first : Layout) :
    (assign l first).2 = (take (Interpolator.total l) first).2 := by
  induction l generalizing first with
  | nil => rfl
  | cons i rest ih =>
    rw [Interpolator.total, ← take_take_snd]
    exact ih _

end Layout

namespace Interpolator

theorem total_perm {l l' : List Interpolator} (h : l.Perm l') : total l = total l' := by
  induction h with
  | nil => rfl
  | cons i _ ih => exact congrArg (i.size + ·) ih
  | swap i j l => exact Nat.add_left_comm _ _ _
  | trans _ _ ih ih' => exact ih.trans ih'

theorem size_le_total {l : List Interpolator} {i : Interpolator} (h : i ∈ l) :
    i.size ≤ total l := by
  induction l with
  | nil => cases h
  | cons j rest ih =>
    rcases List.mem_cons.1 h with rfl | h
    · exact Nat.le_add_right _ _
    · exact Nat.le_add_left_of_le (ih h)

end Interpolator

/-- The number of coordinates is written into the source. -/
theorem Shader.Parts.source_coordinates (s : Parts) :
    ∃ before rest, s.source = before ++
      defineNumber "NUM_TEX_COORD_INTERPOLATORS" " " s.pass.layout.2.used.bound ++ rest := by
  obtain ⟨before, rest, h⟩ : ∃ before rest, s.preamble = before ++
      defineNumber "NUM_TEX_COORD_INTERPOLATORS" " " s.pass.layout.2.used.bound ++ rest :=
    ⟨_, _, String.append_assoc⟩
  unfold source
  rw [h]
  simp only [String.append_assoc]
  exact ⟨_, _, rfl⟩

namespace Pass

open Interpolator

variable {p : Pass}

namespace Packed

theorem total_read (hp : p.Packed) :
    total (p.interpolators.filter (·.offset.isSome)) = p.interpolatedScalars := by
  obtain ⟨order, hperm, -, htotal⟩ := hp.ordered
  exact (total_perm hperm).symm.trans htotal.symm

/-- The coordinates in use, with those given out, are bounded by what the budget counts. -/
theorem bound_layout_le (hp : p.Packed) :
    p.layout.2.used.bound ≤ p.pixelCoordinates.bound + (p.interpolatedScalars + 1) / 2 := by
  have hlayout : p.layout.2 = (Layout.take p.interpolatedScalars ⟨p.pixelCoordinates, none⟩).2 := by
    rw [← hp.total_read, ← total_perm (sortByOffset_perm _)]
    exact Layout.assign_snd _ _
  rw [hlayout]
  exact Layout.bound_take_le _ _

end Packed

/-- Without a problem, the scalars that the budget counts are within it. -/
theorem scalars_le_of_budget {level : FeatureLevel} (h : p.interpolatorProblem? level = none)
    (hread : p.interpolatedScalars ≠ 0) :
    p.pixelCoordinates.bound * 2 + p.interpolatedScalars ≤ if level = .es2 then 6 else 16 := by
  unfold interpolatorProblem? at h
  refine Nat.le_of_not_lt fun hover => ?_
  simp [hread, hover] at h

/-- **The budget of interpolators bounds the coordinates.** A compilation that succeeds uses eight
texture coordinates at most, with those that interpolators are kept in, and says so in its source.
On the smallest feature level it uses three at most, unless it is for a user interface and reads no
scalar of an interpolator. -/
theorem run_coordinates_le (env : Environment) (g : Graph) {o : Outcome} {p : Pass}
    (h : run env (some g.expressions) {} = .ok o p) (hsuccess : o.success = true) :
    p.layout.2.used.bound ≤ 8 ∧
    (env.options.featureLevel = .es2 →
      (env.material.domain = .ui → ∃ i ∈ p.interpolators, i.offset.isSome ∧ 0 < i.size) →
        p.layout.2.used.bound ≤ 3) ∧
    ∃ before rest, o.source = before ++
      defineNumber "NUM_TEX_COORD_INTERPOLATORS" " " p.layout.2.used.bound ++ rest := by
  have hcompleted := run_completed g.expressions_safe h
  have hpacked := hcompleted.reached.packed
  have hbudget := hcompleted.budget (by rw [hcompleted.rest] at hsuccess; exact hsuccess)
  -- The coordinates that are read are those that the context allows.
  have hread : p.pixelCoordinates.bound ≤
      if env.options.featureLevel = .es2 && env.material.domain != .ui then 3 else 8 := by
    obtain ⟨l, -, -, hends⟩ := run_observed (Ledger.once_sound .lenient) g.keeps_lenient.tracked env
    obtain ⟨q, hq, hfixes, -⟩ := hends.ok h
    rw [hfixes.coordinates]
    exact hq.sane.coordinates { env, stage := .pixel, scope := 0 } rfl
  have hbound := hpacked.bound_layout_le
  refine ⟨?_, fun hlevel hcustom => ?_, ?_⟩
  · rcases Nat.eq_zero_or_pos p.interpolatedScalars with hzero | hpos
    · split at hread <;> omega
    · have hscalars := scalars_le_of_budget hbudget (Nat.ne_of_gt hpos)
      split at hscalars <;> omega
  · rcases Nat.eq_zero_or_pos p.interpolatedScalars with hzero | hpos
    · have hdomain : env.material.domain ≠ .ui := by
        intro hui
        obtain ⟨i, hi, hoffset, hsize⟩ := hcustom hui
        have hmem : i ∈ p.interpolators.filter (·.offset.isSome) := List.mem_filter.2 ⟨hi, hoffset⟩
        have hle := hpacked.total_read ▸ size_le_total hmem
        omega
      rw [if_pos (by simp [hlevel, hdomain])] at hread
      omega
    · have hscalars := scalars_le_of_budget hbudget (Nat.ne_of_gt hpos)
      rw [if_pos hlevel] at hscalars
      omega
  · rw [hcompleted.source]
    exact (o.parts env p).source_coordinates

/-- A vector that is interpolated, beside a set of texture coordinates that leaves one free. -/
def sparse : Graph where
  nodes := [.worldPosition .plain, .componentMask ⟨1, 0⟩ ⟨true, true, false, false⟩,
    .vertexInterpolator ⟨2, 0⟩, .textureCoordinate 1 .none .one .one]
  interpolators := [3]

/-- A user interface on the smallest feature level. -/
def sparseMaterial : Environment where
  material :=
    { domain := .ui
      inputs := ((PropertyTable.const Input.none).set .emissiveColor ⟨4, 0⟩).set .opacity ⟨3, 0⟩
      interpolators := [3] }
  options := { featureLevel := .es2 }

/-- The vector is kept in the free coordinate, and the budget is used up. -/
theorem run_coordinates_le_sparse :
    ∃ o p, run sparseMaterial (some sparse.expressions) {} = .ok o p ∧ o.success = true ∧
      p.layout.1.map (·.2) = [[0, 0]] ∧ p.layout.2.used.bound ≤ 3 := by
  obtain ⟨o, p, h, hsuccess, hlayout, hread⟩ :
      ∃ o p, run sparseMaterial (some sparse.expressions) {} = .ok o p ∧ o.success = true ∧
        p.layout.1.map (·.2) = [[0, 0]] ∧
        ∃ i ∈ p.interpolators, i.offset.isSome ∧ 0 < i.size := by decide +kernel
  exact ⟨o, p, h, hsuccess, hlayout,
    (run_coordinates_le sparseMaterial sparse h hsuccess).2.1 rfl fun _ => hread⟩

/-- An interpolator of two float types at once, which has no components, beside the last set of
coordinates. -/
def hollow : Graph where
  nodes := [.vertexColor, .functionInput 0 0 "x" ⟨3⟩ .none, .functionOutput 0 "y" ⟨2, 0⟩,
    .functionCall 0 [⟨1, 0⟩], .vertexInterpolator ⟨4, 0⟩, .textureCoordinate 7 .none .one .one]
  functions := [{ name := "F", inputs := [2], outputs := [3] }]
  interpolators := [5]

/-- A user interface on the smallest feature level that reads both. -/
def hollowMaterial : Environment where
  material :=
    { domain := .ui
      inputs := ((PropertyTable.const Input.none).set .emissiveColor ⟨6, 0⟩).set .opacity ⟨5, 0⟩
      interpolators := [5] }
  options := { featureLevel := .es2 }

/-- An interpolator is read, but no scalar of one, and all eight coordinates are allowed. -/
theorem run_coordinates_hollow :
    ∃ o p, run hollowMaterial (some hollow.expressions) {} = .ok o p ∧ o.success = true ∧
      hollowMaterial.options.featureLevel = .es2 ∧ (∃ i ∈ p.interpolators, i.offset.isSome) ∧
      p.layout.2.used.bound = 8 := by
  decide +kernel

end Pass

end ShaderGraph
