import ShaderGraph.Proofs.Outcomes

/-!
# The names of custom outputs

The custom outputs of a material are compiled in two rounds, those before the properties and those
after them, with everything else in between. An output takes its name when it is compiled, and one
that does not allow another of its name is refused if the name is taken. So what counts is the order
in which the outputs are compiled: in a compilation that succeeds, an output whose name was taken
before allows that (`Pass.Named`). The first one of a name is not asked, whatever follows it.
-/

namespace ShaderGraph

/-- The custom output that a node is. -/
def ExpressionGraph.customOutput? (g : ExpressionGraph) (id : NodeId) : Option CustomOutput :=
  (g.node? id).bind (·.customOutput?)

/-- The custom outputs among the given nodes that are compiled before the properties, or after
them. -/
def ExpressionGraph.customOutputs (g : ExpressionGraph) (ids : List NodeId) (before : Bool) :
    List CustomOutput :=
  (ids.filterMap g.customOutput?).filter (·.beforeProperties = before)

/-- The custom outputs of a material in the order in which they are compiled. -/
def Material.outputsInOrder (m : Material) (g : ExpressionGraph) : List CustomOutput :=
  g.customOutputs m.customOutputs true ++ g.customOutputs m.customOutputs false

/-- The second of two custom outputs can be compiled after the first. -/
def CustomOutput.Precedes (a b : CustomOutput) : Prop := a.name = b.name → b.allowsMultiple = true

/-- No custom output is lost or compiled in both rounds. -/
theorem Material.outputsInOrder_perm (m : Material) (g : ExpressionGraph) :
    (m.outputsInOrder g).Perm (m.customOutputs.filterMap g.customOutput?) := by
  have hperm := List.filter_append_perm (fun out : CustomOutput => out.beforeProperties = true)
    (m.customOutputs.filterMap g.customOutput?)
  simpa [outputsInOrder, ExpressionGraph.customOutputs] using hperm

theorem ExpressionGraph.customOutputs_cons (g : ExpressionGraph) (id : NodeId)
    (ids : List NodeId) (before : Bool) :
    g.customOutputs (id :: ids) before =
      g.customOutputs [id] before ++ g.customOutputs ids before := by
  simp only [customOutputs, ← List.filter_append, ← List.filterMap_append, List.singleton_append]

namespace Pass

variable {p q : Pass} {env : Environment} {g : ExpressionGraph} {compile : Compiler}
variable {checked checked' : Prop} {outputs : List CustomOutput} {id : NodeId} {o : Outcome}

/-! ### What a compilation keeps -/

/-- A pass that has failed does not recover, and a name that is taken stays taken. -/
theorem Step.names (h : Step p q) :
    (q.success = true → p.success = true) ∧ p.customOutputNames ⊆ q.customOutputNames := by
  cases h with
  | effect h =>
    cases h with
    | idle _ hrecords =>
      have hsuccess : q.success = p.success := congrArg RecordState.success hrecords
      have hnames : q.customOutputNames = p.customOutputNames :=
        congrArg RecordState.customOutputNames hrecords
      exact ⟨fun h => hsuccess ▸ h, hnames ▸ List.Subset.refl _⟩
    | report d => exact ⟨nofun, List.Subset.refl _⟩
    | outputName name => exact ⟨id, List.subset_cons_self _ _⟩
    | _ => exact ⟨id, List.Subset.refl _⟩
  | _ => exact ⟨id, List.Subset.refl _⟩

/-- A state with sound code. If the pass has not failed, what it has checked holds, custom outputs
were compiled in the given order, none against what it allows, and their names are taken. -/
structure Named (checked : Prop) (outputs : List CustomOutput) (p : Pass) : Prop where
  sound : p.Sound
  unfailed : p.success = true → checked ∧
    outputs.Pairwise CustomOutput.Precedes ∧ ∀ out ∈ outputs, out.name ∈ p.customOutputNames

theorem Reaches.named (h : p.Reaches q) (hp : p.Named checked outputs) :
    q.Named checked outputs := by
  refine h.invariant (P := Named checked outputs) ?_ hp
  intro s t hstep hs
  refine ⟨hstep.sound hs.sound, fun ht => ?_⟩
  obtain ⟨hsuccess, hnames⟩ := hstep.names
  obtain ⟨hchecked, hordered, htaken⟩ := hs.unfailed (hsuccess ht)
  exact ⟨hchecked, hordered, fun out hout => hnames (htaken out hout)⟩

theorem Safe.named {α : Type} {m : PassM α} (h : Safe m) :
    Leads (Named checked outputs) m (Named checked outputs) := fun _ hp _ _ hm =>
  ((Reaches.refl _).evolves (h.gives hp.sound _ _ hm)).named hp

theorem Named.imp (hp : p.Named checked outputs) (h : checked → checked') :
    p.Named checked' outputs :=
  ⟨hp.sound, fun hsuccess => (hp.unfailed hsuccess).imp_left h⟩

/-- A pass that reports something has failed. -/
theorem reportGlobally_named {outputs' : List CustomOutput} (problem : Problem) :
    Leads (Named checked outputs) (reportGlobally problem) (Named checked' outputs') :=
  fun p hp _ _ h => ⟨((reportGlobally_safe problem).named p hp _ _ h).sound,
    fun hq => absurd hq (by simp [reportGlobally_fails h])⟩

/-- If there is something to report, that fails. -/
theorem forM_reportGlobally_named (problems : List Problem) :
    Leads (Named True outputs) (problems.forM reportGlobally) (Named (problems = []) outputs) := by
  cases problems with
  | nil => exact fun p hp a q h => ((Safe.pure _).named p hp a q h).imp fun _ => rfl
  | cons problem problems =>
    exact (reportGlobally_named problem).bind fun _ =>
      (Safe.forM fun problem _ => reportGlobally_safe problem).named

/-! ### One round -/

/-- A custom output takes its place after those that were compiled before. -/
theorem compileCustomOutput_named {e : Expression} {out : CustomOutput}
    (hsafe : Safe (compileNamedOutput env compile id e out)) :
    Leads (Named checked outputs) (compileCustomOutput env compile id e out)
      (Named checked (outputs ++ [out])) := by
  intro p hp a q h
  rw [compileCustomOutput_eq] at h
  split at h
  case isTrue => exact reportGlobally_named _ p hp a q h
  case isFalse hfree =>
    have hname : p.Evolves { p with customOutputNames := out.name :: p.customOutputNames } :=
      .single (.outputName out.name)
    refine hsafe.named _ ⟨hname.sound hp.sound, fun hsuccess => ?_⟩ a q h
    obtain ⟨hchecked, hordered, htaken⟩ := hp.unfailed hsuccess
    refine ⟨hchecked, List.pairwise_append.mpr ⟨hordered, List.pairwise_singleton _ _, ?_⟩, ?_⟩
    · intro earlier hearlier last hlast hsame
      obtain rfl := List.mem_singleton.mp hlast
      have hmem : last.name ∈ p.customOutputNames := hsame ▸ htaken earlier hearlier
      simpa [hmem] using hfree
    · intro other hother
      rcases List.mem_append.mp hother with hother | hother
      · exact List.mem_cons_of_mem _ (htaken other hother)
      · obtain rfl := List.mem_singleton.mp hother
        exact List.mem_cons_self

section

variable (hg : g.IsSafe)

include hg

/-- One node of the list is compiled if it is a custom output of the round, and the pass fails over
it if it is none. -/
theorem compileListed_named (before : Bool) (id : NodeId) :
    Leads (Named checked outputs) (compileListed env g g.compile before id)
      (Named (checked ∧ (g.customOutput? id).isSome) (outputs ++ g.customOutputs [id] before)) := by
  cases hout : g.customOutput? id with
  | none =>
    rw [compileListed_of_none hout]
    exact reportGlobally_named _
  | some out =>
    obtain ⟨e, hnode, he⟩ := Option.bind_eq_some_iff.mp hout
    rw [compileListed_of_some hnode he]
    simp only [Option.isSome_some, and_true, ExpressionGraph.customOutputs, List.filterMap_cons,
      List.filterMap_nil, hout]
    split
    case isTrue hround =>
      obtain ⟨e', -, out', ⟨he', hout'⟩, -, hfunctions⟩ :=
        ((asksOutputs_safe env hg).customOutput id).resolve_left fun h => by
          simp [ExpressionGraph.customOutput?, h.1] at hout
      cases he'.symm.trans hnode
      cases hout'.symm.trans he
      simp only [hround, decide_true, List.filter_cons_of_pos, List.filter_nil]
      exact compileCustomOutput_named <|
        Safe.phases.compileNamedOutput (fun _ => g.compile) (fun _ => e) hfunctions
    case isFalse hround =>
      simp only [hround, decide_false, Bool.false_eq_true, not_false_eq_true,
        List.filter_cons_of_neg, List.filter_nil, List.append_nil]
      exact (Safe.pure ()).named

/-- **A round** adds its custom outputs in the order in which they are listed, and fails over a
node that is none. -/
theorem forM_compileListed_named (before : Bool) (ids : List NodeId) :
    ∀ {checked outputs}, Leads (Named checked outputs)
      (ids.forM (compileListed env g g.compile before))
      (Named (checked ∧ ∀ id ∈ ids, (g.customOutput? id).isSome)
        (outputs ++ g.customOutputs ids before)) := by
  induction ids with
  | nil =>
    intro checked outputs
    simpa [ExpressionGraph.customOutputs] using (Safe.pure PUnit.unit).named
  | cons id ids ih =>
    intro checked outputs
    rw [g.customOutputs_cons, ← List.append_assoc, List.forall_mem_cons, ← and_assoc]
    exact (compileListed_named hg before id).bind fun _ => ih

/-! ### Both rounds -/

/-- All phases check the limits of virtual textures and the list of custom outputs, and compile the
custom outputs in order. -/
theorem compileAll_named :
    Leads (Named True []) (compileAll env g g.compile)
      (Named ((env.options.virtualTexturing → virtualTextureProblems env.material g = []) ∧
        ∀ id ∈ env.material.customOutputs, (g.customOutput? id).isSome)
      (env.material.outputsInOrder g)) := by
  have hcompile := ExpressionGraph.compile_safe hg
  have hproperties := asksProperties_safe env hcompile
  have hrounds : ∀ {checked}, Leads (Named checked []) (compileRounds env g g.compile)
      (Named ((checked ∧ ∀ id ∈ env.material.customOutputs, (g.customOutput? id).isSome) ∧
        ∀ id ∈ env.material.customOutputs, (g.customOutput? id).isSome)
      (env.material.outputsInOrder g)) := by
    refine (forM_compileListed_named hg true _).bind fun _ => Leads.bind (fun p hp _ _ h =>
      (compileNormal_reaches hcompile hp.sound h).named hp) fun _ => ?_
    refine (enter_safe _).named.bind fun _ =>
      (Safe.phases.compileRemaining hproperties).named.bind fun _ => ?_
    exact (enter_safe _).named.bind fun _ => (forM_compileListed_named hg false _).bind fun _ =>
      (Safe.phases.compileCoordinates hproperties).named
  refine (enter_safe _).named.bind fun _ => ?_
  refine (compileInterpolators_safe hcompile).named.bind fun _ => ?_
  unfold compileRest
  split
  case isTrue =>
    refine (enter_safe _).named.bind fun _ => (forM_reportGlobally_named _).bind fun _ => ?_
    exact fun p hp a q h => (hrounds p hp a q h).imp fun hq => ⟨fun _ => hq.1.1, hq.2⟩
  case isFalse hoff =>
    exact fun p hp a q h => (hrounds p hp a q h).imp fun hq => ⟨fun hon => absurd hon hoff, hq.2⟩

/-- In a compilation that succeeds, no property is past the limits of virtual textures, every listed
node is a custom output, and none is compiled against what it allows. -/
theorem run_named (h : run env (some g) {} = .ok o p) (hsuccess : p.success = true) :
    ((env.options.virtualTexturing → virtualTextureProblems env.material g = []) ∧
      ∀ id ∈ env.material.customOutputs, (g.customOutput? id).isSome) ∧
    (env.material.outputsInOrder g).Pairwise CustomOutput.Precedes := by
  obtain ⟨s, r, hs, hall, hfinish⟩ := runBy_ok h
  have hr := compileAll_named hg s ⟨hs.sound, fun _ => ⟨trivial, .nil, nofun⟩⟩ _ _ hall
  obtain ⟨hchecked, hordered, -⟩ := ((finish_reaches hr.sound hfinish).named hr).unfailed hsuccess
  exact ⟨hchecked, hordered⟩

end

/-- **The names of custom outputs.** Take a compilation that succeeds, and the custom outputs of one
name among those of the material, in the order in which they are compiled. Either all of them allow
others of their name, or there is only one, or the first of several is the only one that does not:
the others were asked when they were compiled, the first was not. -/
theorem run_outputNames (env : Environment) (g : Graph) {o : Outcome} {p : Pass}
    (h : run env (some g.expressions) {} = .ok o p) (hsuccess : o.success = true) :
    (∀ id ∈ env.material.customOutputs, (g.expressions.customOutput? id).isSome) ∧
    (env.material.outputsInOrder g.expressions).Perm
      (env.material.customOutputs.filterMap g.expressions.customOutput?) ∧
    ∀ (name : String) (named : List CustomOutput),
      (env.material.outputsInOrder g.expressions).filter (·.name = name) = named →
      (∀ out ∈ named, out.allowsMultiple = true) ∨ (∃ out, named = [out]) ∨
        ∃ first second others, named = first :: second :: others ∧ first.allowsMultiple = false ∧
          ∀ out ∈ second :: others, out.allowsMultiple = true := by
  have ho := run_concluded (some g) h
  have hp : p.success = true := ho.success ▸ hsuccess
  obtain ⟨⟨-, hlisted⟩, hordered⟩ := run_named g.expressions_safe h hp
  refine ⟨hlisted, env.material.outputsInOrder_perm _, fun name named hnamed => ?_⟩
  have hname : ∀ out ∈ named, out.name = name := fun out hout => by
    rw [← hnamed] at hout
    simpa using (List.mem_filter.mp hout).2
  have hpairwise : named.Pairwise CustomOutput.Precedes := hnamed ▸ hordered.filter _
  cases named with
  | nil => exact .inl (by simp)
  | cons first others =>
    have hothers : ∀ out ∈ others, out.allowsMultiple = true := fun out hout => by
      refine (List.pairwise_cons.mp hpairwise).1 out hout ?_
      exact (hname first List.mem_cons_self).trans (hname out (List.mem_cons_of_mem _ hout)).symm
    cases hfirst : first.allowsMultiple with
    | true => exact .inl (List.forall_mem_cons.mpr ⟨hfirst, hothers⟩)
    | false =>
      cases others with
      | nil => exact .inr (.inl ⟨first, rfl⟩)
      | cons second others => exact .inr (.inr ⟨first, second, others, rfl, hfirst, hothers⟩)

/-- A custom output on a constant. -/
def bentOutput (beforeProperties allowsMultiple : Bool) : Node :=
  .customOutput { name := "GetBent", beforeProperties, allowsMultiple } [⟨1, 0⟩]

/-- Three custom outputs of one name that allow this, the last of which is compiled first. -/
def bentThrice : Graph where
  nodes := [.constant .one, bentOutput false true, bentOutput false true, bentOutput true true]

/-- The material that lists all of them. -/
def bentThriceMaterial : Environment where
  material := { customOutputs := [2, 3, 4] }

/-- It is compiled, and all of them allow others of their name. -/
theorem run_outputNames_bentThrice :
    ∃ o p, run bentThriceMaterial (some bentThrice.expressions) {} = .ok o p ∧
      o.success = true ∧ ∃ named,
        (bentThriceMaterial.material.outputsInOrder bentThrice.expressions).filter
          (·.name = "GetBent") = named ∧ named.length = 3 ∧
        ∀ out ∈ named, out.allowsMultiple = true := by
  obtain ⟨o, p, h, hsuccess⟩ : ∃ o p, run bentThriceMaterial (some bentThrice.expressions) {} =
      .ok o p ∧ o.success = true := by decide +kernel
  obtain ⟨-, -, hnames⟩ := run_outputNames bentThriceMaterial bentThrice h hsuccess
  have hlength : ((bentThriceMaterial.material.outputsInOrder bentThrice.expressions).filter
      (·.name = "GetBent")).length = 3 := by decide
  refine ⟨o, p, h, hsuccess, _, rfl, hlength, ?_⟩
  rcases hnames "GetBent" _ rfl with hall | ⟨out, hone⟩ | ⟨first, second, others, hnamed, hfirst, -⟩
  · exact hall
  · rw [hone] at hlength
    cases hlength
  · have hhead := congrArg (fun l => l.head?.map (·.allowsMultiple)) hnamed
    rw [List.head?_cons, Option.map_some, hfirst] at hhead
    exact absurd hhead (by decide)

/-- Two custom outputs of one name, the first of which does not allow this. -/
def bentTwice : Graph where
  nodes := [.constant .one, bentOutput false false, bentOutput false true]

/-- The material that lists both. -/
def bentTwiceMaterial : Environment where
  material := { customOutputs := [2, 3] }

/-- It is compiled as if the first did. -/
theorem run_bentTwice :
    ∃ o p, run bentTwiceMaterial (some bentTwice.expressions) {} = .ok o p ∧ o.success = true ∧
      (bentTwiceMaterial.material.customOutputs.filterMap
        bentTwice.expressions.customOutput?).map (fun out => (out.name, out.allowsMultiple)) =
        [("GetBent", false), ("GetBent", true)] := by decide +kernel

end Pass

end ShaderGraph
