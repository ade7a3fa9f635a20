import Mathlib.Data.Option.Defs
import ShaderGraph.Config

/-!
# What is wrong with a configuration is found beforehand

`Config.errors` looks at all of a configuration, while `Config.options` and
`Config.parameterValues` stop at the first thing that is wrong with their part of it. Still it finds
nothing exactly if the other two succeed, whichever texts are taken for names of log levels
(`Config.errorsBy_eq_nil_iff`).
-/

namespace ShaderGraph

/-- Whether a value has the given components, of which there are one to four: a single one
everywhere, and zeros after several. -/
def Value.IsOf (components : List Single) (v : Value) : Prop :=
  1 ≤ components.length ∧ components.length ≤ 4 ∧ ∀ i < 4,
    v.component i = components.getD (if components.length = 1 then 0 else i) .zero

namespace Config

/-- A parameter has a value if it has one to four components, and then the value of these. -/
theorem parameterValue_cases (name : String) (components : List Single) :
    (∃ v, parameterValue name components = .ok v ∧ v.IsOf components) ∨
      ((components.length = 0 ∨ 4 < components.length) ∧
        ∃ e, parameterValue name components = .error e) := by
  rcases components with _ | ⟨x, _ | ⟨y, rest⟩⟩
  · exact .inr ⟨.inl rfl, _, rfl⟩
  · refine .inl ⟨_, rfl, Nat.le_refl 1, by simp, fun i hi => ?_⟩
    rcases i with _ | _ | _ | _ | i
    all_goals first | rfl | omega
  · rcases Nat.lt_or_ge 4 (x :: y :: rest).length with hlt | hle
    · exact .inr ⟨.inr hlt, _, if_neg (Nat.not_le.2 hlt)⟩
    · refine .inl ⟨_, if_pos hle, by simp, hle, fun i hi => ?_⟩
      rcases i with _ | _ | _ | _ | i
      all_goals first | rfl | omega

theorem errorOf_eq_nil_iff {α : Type} {r : Except ConfigError α} :
    errorOf r = [] ↔ ∃ a, r = .ok a := by
  cases r <;> simp [errorOf]

/-- The options are found if both levels are. -/
theorem optionsBy_eq_ok_iff (parse : String → Except LogLevelError LogLevel) (c : Config) :
    (∃ o, c.optionsBy parse = .ok o) ↔
      (∃ level, c.level = .ok level) ∧ ∃ level, c.thresholdBy parse = .ok level := by
  unfold optionsBy
  cases c.level <;> cases c.thresholdBy parse <;> simp [bind, Except.bind, pure, Except.pure]

/-- The values are found if every parameter has one to four components, and then each name has the
value of its components. -/
theorem parameterValues_cases (c : Config) :
    (∃ values, c.parameterValues = .ok values ∧
        (∀ entry ∈ c.parameters, 1 ≤ entry.2.length ∧ entry.2.length ≤ 4) ∧
        ∀ name, Option.Rel Value.IsOf (c.parameters.lookup name) (values.lookup name)) ∨
      ((∃ entry ∈ c.parameters, entry.2.length = 0 ∨ 4 < entry.2.length) ∧
        ∃ e, c.parameterValues = .error e) := by
  unfold parameterValues
  induction c.parameters with
  | nil => exact .inl ⟨[], rfl, fun _ h => (List.not_mem_nil h).elim, fun _ => .none⟩
  | cons entry rest ih =>
    obtain ⟨key, components⟩ := entry
    rw [List.foldrM_cons]
    rcases ih with ⟨values, hvalues, hcounts, hlookup⟩ | ⟨⟨entry, hmem, hbad⟩, e, he⟩
    · rw [hvalues]
      rcases parameterValue_cases key components with ⟨v, hv, hof⟩ | ⟨hbad, e, he⟩
      · refine .inl ⟨(key, v) :: values, ?_, ?_, fun name => ?_⟩
        · show (parameterValue key components >>= fun v => pure ((key, v) :: values)) = _
          rw [hv]
          rfl
        · exact List.forall_mem_cons.2 ⟨⟨hof.1, hof.2.1⟩, hcounts⟩
        · rw [List.lookup_cons, List.lookup_cons]
          cases name == key with
          | true => exact .some hof
          | false => exact hlookup name
      · refine .inr ⟨⟨(key, components), by simp, hbad⟩, e, ?_⟩
        show (parameterValue key components >>= fun v => pure ((key, v) :: values)) = _
        rw [he]
        rfl
    · refine .inr ⟨⟨entry, List.mem_cons_of_mem _ hmem, hbad⟩, e, ?_⟩
      rw [he]
      rfl

/-- **A configuration is found valid exactly if it can be used**: nothing is wrong with it if and
only if it has options and values of its parameters. Then every name has the value of its
components. Which texts name log levels plays no part. -/
theorem errorsBy_eq_nil_iff (parse : String → Except LogLevelError LogLevel) (c : Config) :
    (c.errorsBy parse = [] ↔
      (∃ o, c.optionsBy parse = .ok o) ∧ ∃ values, c.parameterValues = .ok values) ∧
    (c.errorsBy parse = [] → ∃ values, c.parameterValues = .ok values ∧
      ∀ name, Option.Rel Value.IsOf (c.parameters.lookup name) (values.lookup name)) := by
  have hparameters : (∀ entry ∈ c.parameters, 1 ≤ entry.2.length ∧ entry.2.length ≤ 4) ↔
      ∃ values, c.parameterValues = .ok values := by
    rcases c.parameterValues_cases with
      ⟨values, hvalues, hcounts, -⟩ | ⟨⟨entry, hmem, hbad⟩, e, he⟩
    · exact iff_of_true hcounts ⟨values, hvalues⟩
    · refine iff_of_false (fun h => ?_) (by simp [he])
      have := h entry hmem
      omega
  have herrors : c.errorsBy parse = [] ↔
      (∃ o, c.optionsBy parse = .ok o) ∧ ∃ values, c.parameterValues = .ok values := by
    rw [optionsBy_eq_ok_iff, ← hparameters]
    simp only [errorsBy, List.append_eq_nil_iff, errorOf_eq_nil_iff, List.flatMap_eq_nil_iff]
    refine and_congr_right fun _ => forall₂_congr fun entry _ => ?_
    simp only [ite_eq_right_iff, Bool.or_eq_true, decide_eq_true_eq, List.cons_ne_nil, imp_false]
    omega
  refine ⟨herrors, fun h => ?_⟩
  rcases c.parameterValues_cases with ⟨values, hvalues, -, hlookup⟩ | ⟨-, e, he⟩
  · exact ⟨values, hvalues, hlookup⟩
  · obtain ⟨values, hvalues⟩ := (herrors.1 h).2
    cases he.symm.trans hvalues

/-- A configuration in which a parameter has two components, and another has one. -/
def tinted : Config where
  parameters := [("Tint", [.one, .half]), ("Gain", [.two])]
  logLevel := "loud"

/-- Any text may be taken for the name of a log level. -/
theorem errorsBy_eq_nil_iff_tinted :
    tinted.errorsBy (fun _ => .ok .warn) = [] ∧
      ∃ values, tinted.parameterValues = .ok values ∧
        Option.Rel Value.IsOf (some [.one, .half]) (values.lookup "Tint") := by
  have h : tinted.errorsBy (fun _ => .ok .warn) = [] := rfl
  obtain ⟨values, hvalues, hlookup⟩ := (errorsBy_eq_nil_iff _ tinted).2 h
  exact ⟨h, values, hvalues, hlookup "Tint"⟩

end Config

end ShaderGraph
