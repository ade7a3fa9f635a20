import ShaderGraph.Proofs.Closure

/-!
# The assembled functions

A function of a shader is closed if what its lines read is declared on lines before. The function
that computes the pixel inputs always is: whichever member its declarations are taken from, a member
that has any has all of them. The function that writes the texture coordinates takes its
declarations from the first coordinate, so it is closed unless that one has none while another reads
a temporary (`Pass.Completed.closed_coordinates_iff`).
-/

namespace ShaderGraph

/-! ### Writing lines -/

namespace Text

/-- Where the temporaries `T` are declared, the lines of the text `t` are closed; they declare
`U`. -/
def Writes (T : List Nat) (t : String) (U : List Nat) : Prop :=
  ∃ ls, IsLines t ls ∧ Continues T ls U

/-- Whether characters make up whole lines that neither declare nor read temporaries. -/
def isFixedBlock (cs : List Char) : Bool :=
  let ls := (cs.splitOn '\n').dropLast
  decide (cs = ls.flatMap (· ++ ['\n'])) && ls.all fun l =>
    !l.contains '\n' && isPlain (l.takeWhile (· != '=')) && isPlain (l.dropWhile (· != '='))

/-- The line of an assignment, without its end. -/
def assignmentLine (front value : String) : List Char :=
  (front ++ " ").toList ++ '=' :: (" " ++ value ++ ";").toList

theorem isLines_assignment {front value : String} (hfront : '\n' ∉ front.toList)
    (hvalue : '\n' ∉ value.toList) :
    IsLines (front ++ " = " ++ value ++ ";\n") [assignmentLine front value] :=
  ⟨by simp [assignmentLine], by simp [assignmentLine, hfront, hvalue]⟩

namespace Writes

variable {T U V : List Nat} {a b t : String}

theorem empty (T : List Nat) : Writes T "" [] := ⟨[], .empty, .nil T⟩

theorem append (ha : Writes T a U) (hb : Writes (T ++ U) b V) : Writes T (a ++ b) (U ++ V) := by
  obtain ⟨ls, hls, hcontinues⟩ := ha
  obtain ⟨ks, hks, hcontinues'⟩ := hb
  exact ⟨ls ++ ks, hls.append hks, hcontinues.append hcontinues'⟩

/-- A text that declares nothing, in front of another. -/
theorem after (hb : Writes T b V) (ha : Writes T a []) : Writes T (a ++ b) V := by
  simpa using ha.append (V := V) (by simpa using hb)

/-- A text that declares nothing, behind another. -/
theorem before (ha : Writes T a U) (hb : Writes (T ++ U) b []) : Writes T (a ++ b) U := by
  simpa using ha.append hb

theorem fixed {cs : List Char} (ht : t.toList = cs) (h : isFixedBlock cs = true) :
    Writes T t [] := by
  simp only [isFixedBlock, Bool.and_eq_true, decide_eq_true_eq, List.all_eq_true] at h
  obtain ⟨htext, hlines⟩ := h
  generalize (cs.splitOn '\n').dropLast = ls at htext hlines
  refine ⟨ls, ⟨ht.trans htext, fun l hl => ?_⟩, ?_⟩
  · simpa using (hlines l hl).1.1
  · clear htext
    induction ls with
    | nil => exact .nil T
    | cons l ls ih =>
      obtain ⟨⟨-, hfront⟩, hrest⟩ := hlines l (by simp)
      have hl : Continues T [l] [] := .silent (not_mentions_of_isPlain hfront) fun n hn =>
        absurd hn (not_mentions_of_isPlain hrest n)
      exact hl.append (by simpa using ih fun k hk => hlines k (by simp [hk]))

/-- The first two pieces of a text are taken together. -/
theorem glue {c : String} (h : Writes T (a ++ b ++ c) U) : Writes T (a ++ (b ++ c)) U := by
  rwa [String.append_assoc] at h

/-- An empty text declares nothing. -/
theorem eq_nil (h : Writes T "" U) : U = [] := by
  obtain ⟨ls, hls, hcontinues⟩ := h
  have hnil : ls = [] := by
    cases ls with
    | nil => rfl
    | cons l ls => exact absurd hls.text (by simp)
  subst hnil
  refine List.eq_nil_iff_forall_not_mem.mpr fun n hn => ?_
  have hcount := hcontinues.declares n
  exact absurd (List.count_pos_iff.mpr hn) (by rw [← hcount]; simp [declared])

/-- The line of an assignment. -/
theorem assign {front value : String} (hfront : Reads (fun _ => False) front)
    (hequals : '=' ∉ front.toList) (hvalue : Reads (· ∈ T) value) :
    Writes T (front ++ " = " ++ value ++ ";\n") [] := by
  have hspace : Reads (fun _ => False) (front ++ " ") := hfront.before (by decide)
  have hspaced : '=' ∉ (front ++ " ").toList := by simpa using hequals
  refine ⟨[assignmentLine front value], isLines_assignment hfront.line hvalue.line, ?_⟩
  refine .silent (fun n hn => ?_) fun n hn => hvalue.among n ?_
  · rw [assignmentLine, takeWhile_equals hspaced] at hn
    exact hspace.among n hn
  · exact (lineReads_iff hspaced value n).mp hn

/-- Texts that declare nothing, one after another. -/
theorem join {ts : List String} (h : ∀ t ∈ ts, Writes T t []) : Writes T (String.join ts) [] := by
  induction ts with
  | nil => exact empty T
  | cons t ts ih =>
    rw [String.join_cons]
    exact (ih fun u hu => h u (by simp [hu])).after (h t (by simp))

/-- The lines of a text that is written where nothing is declared are closed. -/
theorem closedLines (h : Writes [] t U) (hU : U.Nodup) : ClosedLines (lines t) := by
  obtain ⟨ls, hls, hcontinues⟩ := h
  have hempty := hcontinues.append (.emptyLine ([] ++ U))
  rw [List.append_nil] at hempty
  rw [hls.lines_eq]
  exact hempty.closedLines hU

end Writes

end Text

/-- Declarations of a scope are written where those before them stand. -/
theorem Scope.Ordered.writes_declarations {s : Scope} (hs : s.Ordered) {start stop : Nat}
    (h : start ≤ stop) :
    Text.Writes (Scope.temporaries (s.take start)) (s.declarations start stop)
      (Scope.temporaries ((s.take stop).drop start)) := by
  have hcontinues := (hs.take stop).continues start
  rw [List.take_take, Nat.min_eq_left h] at hcontinues
  exact ⟨_, hs.isLines_declarations start stop, hcontinues⟩

namespace Pass.Completed

variable {p : Pass} {env : Environment} {o : Outcome} {property : Property} {s : Scope}

/-! ### The pixel inputs -/

/-- A property other than the normal either needs no definitions, or has all declarations of its
part of the scope. -/
theorem body_cases (hp : Completed env o p) (h : property ≠ .normal)
    (hs : p.scope (p.stageScopes.get property.stage) = s) :
    ((o.properties.get property).definitions = "" ∧
        Text.Reads (fun _ => False) (o.properties.get property).value) ∨
      ((o.properties.get property).definitions =
          s.declarations (if property.isShared then p.normalEnd else 0) s.length ∧
        Text.Reads (· ∈ s.temporaries) (o.properties.get property).value) := by
  have hbody := hp.body_of_ne h
  rw [hs] at hbody
  have hordered := hs ▸ hp.sound.ordered (p.stageScopes.get property.stage)
  have hok := hordered.body_ok hbody fun i hi => Scope.lt_of_body (hi ▸ hbody)
  rwa [List.take_length] at hok

/-- Whichever member the declarations after the normal are taken from, they are all that the members
read besides those of the normal. -/
theorem writes_sharedDefinitions (hp : Completed env o p)
    (hs : p.scope (p.stageScopes.get .pixel) = s) :
    ∃ U, Text.Writes (Scope.temporaries (s.take p.normalEnd)) (o.parts env p).sharedDefinitions U ∧
      (Scope.temporaries (s.take p.normalEnd) ++ U).Nodup ∧
      ∀ property ∈ Property.pixelMembers.filter (· != .normal),
        Text.Reads (· ∈ Scope.temporaries (s.take p.normalEnd) ++ U)
          (o.properties.get property).value := by
  have hordered : s.Ordered := hs ▸ hp.sound.ordered (p.stageScopes.get .pixel)
  have hend : p.normalEnd ≤ s.length := hs ▸ hp.normalEnd_le
  have hmember : ∀ property ∈ Property.pixelMembers.filter (· != .normal),
      ((o.properties.get property).definitions = "" ∧
          Text.Reads (fun _ => False) (o.properties.get property).value) ∨
        ((o.properties.get property).definitions = s.declarations p.normalEnd s.length ∧
          Text.Reads (· ∈ s.temporaries) (o.properties.get property).value) := by
    have hkind : ∀ property ∈ Property.pixelMembers.filter (· != .normal),
        property ≠ .normal ∧ property.isShared = true ∧ property.stage = .pixel := by decide
    intro property hmem
    obtain ⟨hnormal, hshared, hstage⟩ := hkind property hmem
    have hcases := hp.body_cases hnormal (hstage ▸ hs)
    rwa [if_pos hshared] at hcases
  have hwrites := hordered.writes_declarations hend
  rw [List.take_length] at hwrites
  have hsplit : s.temporaries =
      Scope.temporaries (s.take p.normalEnd) ++ Scope.temporaries (s.drop p.normalEnd) := by
    rw [← Scope.temporaries_append, List.take_append_drop]
  unfold Shader.Parts.sharedDefinitions
  dsimp only
  split
  case h_1 text hlast =>
    obtain ⟨htext, hne⟩ := List.mem_filter.mp (List.mem_of_getLast? hlast)
    obtain ⟨property, hmem, rfl⟩ := List.mem_map.mp htext
    have hall : (o.properties.get property).definitions = s.declarations p.normalEnd s.length := by
      rcases hmember property hmem with ⟨hempty, -⟩ | ⟨hall, -⟩
      · simp [Outcome.parts, hempty] at hne
      · exact hall
    refine ⟨Scope.temporaries (s.drop p.normalEnd), ?_, ?_, fun property hmem => ?_⟩
    · exact hall ▸ hwrites.before (.fixed rfl (by decide))
    · exact hsplit ▸ hordered.nodup_temporaries
    · rw [← hsplit]
      rcases hmember property hmem with ⟨-, hvalue⟩ | ⟨-, hvalue⟩
      · exact hvalue.mono fun _ => False.elim
      · exact hvalue
  case h_2 hlast =>
    refine ⟨[], .empty _, ?_, fun property hmem => ?_⟩
    · rw [List.append_nil]
      exact (hordered.take _).nodup_temporaries
    · rcases hmember property hmem with ⟨-, hvalue⟩ | ⟨hall, hvalue⟩
      · exact hvalue.mono fun _ => False.elim
      · -- The declarations are all there and yet empty, so there is nothing to declare.
        have hempty : (o.properties.get property).definitions = "" := by
          have hnone := List.getLast?_eq_none_iff.mp hlast
          have hfilter := List.filter_eq_nil_iff.mp hnone _ (List.mem_map_of_mem hmem)
          simpa [Outcome.parts] using hfilter
        rw [← hall, hempty] at hwrites
        rwa [hsplit, hwrites.eq_nil] at hvalue

/-- A member of the pixel inputs is assigned on one line. -/
theorem writes_assignment {T : List Nat} (hmem : property ∈ Property.pixelMembers)
    (hvalue : Text.Reads (· ∈ T) (o.properties.get property).value) :
    Text.Writes T ((o.parts env p).assignment property) [] := by
  have hname : ∀ property ∈ Property.pixelMembers,
      Text.isFixed property.name = true ∧ '=' ∉ property.name.toList := by decide
  obtain ⟨hfixed, hequals⟩ := hname property hmem
  exact .assign ((Text.Reads.fixed hfixed).after (by decide)) (by simpa using hequals) hvalue

/-- **The function that computes the pixel inputs is closed.** -/
theorem closed_pixelFunction (hp : Completed env o p) :
    Text.ClosedLines (Text.lines (o.parts env p).pixelFunction) := by
  obtain ⟨hdefinitions, hnormal⟩ := hp.normal_body
  obtain ⟨U, hshared, hnodup, hmembers⟩ := hp.writes_sharedDefinitions rfl
  have hordered := hp.sound.ordered (p.stageScopes.get .pixel)
  have hdeclarations := hordered.writes_declarations (Nat.zero_le p.normalEnd)
  generalize p.scope (p.stageScopes.get .pixel) = s at *
  rw [List.drop_zero, ← hdefinitions] at hdeclarations
  have hassignments : Text.Writes (Scope.temporaries (s.take p.normalEnd) ++ U)
      (String.join ((Property.pixelMembers.filter (· != .normal)).map
        (o.parts env p).assignment)) [] := by
    refine .join fun t ht => ?_
    obtain ⟨property, hmem, rfl⟩ := List.mem_map.mp ht
    exact writes_assignment (List.mem_filter.mp hmem).1 (hmembers property hmem)
  refine Text.Writes.closedLines (U := Scope.temporaries (s.take p.normalEnd) ++ U) ?_ hnodup
  simp only [Shader.Parts.pixelFunction, Shader.braced, Shader.Parts.memberSetup,
    String.append_assoc]
  have three : ∀ a b c : List Char,
      (String.ofList a ++ String.ofList b ++ String.ofList c).toList = a ++ b ++ c := by simp
  have four : ∀ a b c d : List Char, (String.ofList a ++ String.ofList b ++ String.ofList c ++
      String.ofList d).toList = a ++ b ++ c ++ d := by simp
  -- The lines up to the declarations of the normal.
  refine .glue (.glue (.glue (.after (hdeclarations.append ?_)
    (.fixed (four _ _ _ _) (by decide +kernel)))))
  -- The assignment of the normal, between fixed lines.
  refine .glue (.glue (.after (.after ?_ (writes_assignment (by decide) hnormal))
    (.fixed (three _ _ _) (by decide +kernel))))
  refine .glue (.glue (.glue (.after ?_ (.fixed (four _ _ _ _) (by decide +kernel)))))
  exact hshared.before (hassignments.before (.fixed rfl (by decide)))

end Pass.Completed

/-! ### Texture coordinates -/

namespace Shader.Parts

variable {T : List Nat} (s : Parts)

/-- What a texture coordinate is written to. -/
def coordinateFront (i : Fin 8) : String := s!"\tOutTexCoords[{i.val}]"

/-- The coordinates that the pixel stage reads. -/
def readCoordinates : List (Fin 8) := (List.finRange 8).filter fun i => i.val < s.coordinates

/-- The line that writes a customized texture coordinate. -/
def coordinateText (i : Fin 8) : String :=
  coordinateFront i ++ " = " ++ (s.bodies.get (.customizedUV i)).value ++ ";\n"

theorem coordinateFront_ok (i : Fin 8) :
    Text.isFixed (coordinateFront i) = true ∧ '=' ∉ (coordinateFront i).toList := by
  revert i
  decide

/-- The declarations of the first coordinate stand before the lines of all of them. -/
theorem coordinateAssignments_eq :
    s.coordinateAssignments =
      (if 0 < s.coordinates then (s.bodies.get (.customizedUV 0)).definitions else "") ++
        String.join (s.readCoordinates.map s.coordinateText) := by
  have htext : ∀ i : Fin 8, s!"\tOutTexCoords[{i.val}] = " = coordinateFront i ++ " = " := by decide
  have hread : s.coordinateAssignments = String.join (s.readCoordinates.map fun i =>
      (if i.val = 0 then (s.bodies.get (.customizedUV i)).definitions else "") ++
        s.coordinateText i) := by
    refine congrArg String.join (List.map_congr_left fun i _ => ?_)
    rw [coordinateText, ← htext]
    rfl
  rw [hread]
  split
  case isTrue hpos =>
    -- The first coordinate is read, and it comes first.
    have hfirst : s.readCoordinates =
        0 :: ((List.finRange 7).map Fin.succ).filter fun i => i.val < s.coordinates := by
      rw [readCoordinates, List.finRange_succ, List.filter_cons_of_pos (by simpa using hpos)]
    rw [hfirst, List.map_cons, List.map_cons, String.join_cons, String.join_cons,
      ← String.append_assoc]
    refine congrArg₂ (· ++ ·) rfl (congrArg String.join (List.map_congr_left fun i hi => ?_))
    obtain ⟨j, -, rfl⟩ := List.mem_map.mp (List.mem_filter.mp hi).1
    rw [if_neg (by simp), String.empty_append]
  case isFalse hzero =>
    have hnone : s.readCoordinates = [] :=
      List.filter_eq_nil_iff.mpr fun i _ => by simp; omega
    rw [hnone]
    rfl

theorem writes_coordinates {is : List (Fin 8)}
    (h : ∀ i ∈ is, Text.Reads (· ∈ T) (s.bodies.get (.customizedUV i)).value) :
    Text.Writes T (String.join (is.map s.coordinateText)) [] := by
  refine .join fun t ht => ?_
  obtain ⟨i, hi, rfl⟩ := List.mem_map.mp ht
  obtain ⟨hfixed, hequals⟩ := coordinateFront_ok i
  exact .assign (.fixed hfixed) hequals (h i hi)

theorem not_mem_componentLetter {letters : String} {x : Char} (h : x ∉ letters.toList) (i : Nat) :
    x ∉ (componentLetter letters i).toList := by
  unfold componentLetter
  rw [String.toList_ofList]
  exact fun hx => h (List.mem_of_mem_drop (List.mem_of_mem_take hx))

theorem not_mem_place (i : Interpolator) (offset c : Nat) :
    '=' ∉ ("\tOut" ++ i.place offset c).toList := by
  have hindex : '=' ∉ (toString i.index).toList := fun h =>
    absurd (Text.isDigit_of_mem_natText h) (by decide)
  have hupper : '=' ∉ (componentLetter "XYZW" c).toList := not_mem_componentLetter (by decide) c
  have hlower : '=' ∉ (componentLetter "xy" ((offset + c) % 2)).toList :=
    not_mem_componentLetter (by decide) _
  show '=' ∉ ("\tOut" ++ ("TexCoords[VERTEX_INTERPOLATOR_" ++ toString i.index ++ "_TEXCOORDS_" ++
    componentLetter "XYZW" c ++ "]." ++ componentLetter "xy" ((offset + c) % 2))).toList
  simp only [String.toList_append, List.mem_append, not_or]
  exact ⟨by decide, ⟨⟨⟨⟨by decide, hindex⟩, by decide⟩, hupper⟩, by decide⟩, hlower⟩

theorem writes_interpolators : Text.Writes T s.interpolatorAssignments [] := by
  refine .join fun t ht => ?_
  obtain ⟨i, -, rfl⟩ := List.mem_map.mp ht
  unfold Interpolator.assignments
  split
  · exact .empty T
  case h_2 offset _ =>
    refine .join fun t ht => ?_
    obtain ⟨c, -, rfl⟩ := List.mem_map.mp ht
    have hcall : Text.Reads (· ∈ T) ("VertexInterpolator" ++ toString i.index ++ "(Parameters)." ++
        componentLetter "xyzw" c) :=
      ((Text.Reads.natText i.index).between (by decide) (by decide)).before
        (Context.isBack_componentLetter (by decide) c)
    have hline := Text.Writes.assign ((Context.reads_place i offset c).after (by decide))
      (not_mem_place i offset c) hcall
    have hequals : " = VertexInterpolator" = " = " ++ "VertexInterpolator" := by decide
    show Text.Writes T ("\tOut" ++ i.place offset c ++
      (" = VertexInterpolator" ++ toString i.index ++ "(Parameters).") ++
      componentLetter "xyzw" c ++ ";\n") []
    rw [hequals]
    simpa only [String.append_assoc] using hline

/-- Where nothing is declared, a coordinate that reads a temporary leaves the lines open. -/
theorem not_closed_of_mentions
    (hreads : ∀ i, Text.Reads (· ∈ T) (s.bodies.get (.customizedUV i)).value)
    {i : Fin 8} (hi : i ∈ s.readCoordinates) {n : Nat}
    (hn : Text.Mentions (s.bodies.get (.customizedUV i)).value.toList n) :
    ¬ Text.ClosedLines (Text.lines
      (String.join (s.readCoordinates.map s.coordinateText) ++ s.interpolatorAssignments)) := by
  have hpieces : ∀ l : List (Fin 8), Text.Writes T (String.join (l.map s.coordinateText)) [] :=
    fun l => s.writes_coordinates fun j _ => hreads j
  obtain ⟨ls, hls, hdeclares⟩ := (hpieces s.readCoordinates).before s.writes_interpolators
  -- The line of the coordinate is one of the lines of the text.
  obtain ⟨hfixed, hequals⟩ := coordinateFront_ok i
  have hspaced : '=' ∉ (coordinateFront i ++ " ").toList := by simpa using hequals
  have hline := Text.isLines_assignment (Text.Reads.fixed (T := fun _ => False) hfixed).line
    (hreads i).line
  obtain ⟨before, after, hsplit⟩ := List.append_of_mem hi
  obtain ⟨ks, hks, -⟩ := hpieces before
  obtain ⟨ks', hks', -⟩ := hpieces after
  obtain ⟨rs, hrs, -⟩ := s.writes_interpolators (T := T)
  have hlines := (hks.append (hline.append hks')).append hrs
  have htext : String.join (before.map s.coordinateText) ++
      (s.coordinateText i ++ String.join (after.map s.coordinateText)) =
        String.join (s.readCoordinates.map s.coordinateText) := by
    rw [hsplit, List.map_append, List.map_cons, String.join_append, String.join_cons]
  change Text.IsLines (String.join (before.map s.coordinateText) ++ (s.coordinateText i ++
    String.join (after.map s.coordinateText)) ++ s.interpolatorAssignments) _ at hlines
  rw [htext] at hlines
  intro hclosed
  have hmem : Text.assignmentLine (coordinateFront i) (s.bodies.get (.customizedUV i)).value ∈
      Text.lines (String.join (s.readCoordinates.map s.coordinateText) ++
        s.interpolatorAssignments) := by
    rw [hlines.lines_eq]
    simp
  obtain ⟨j, hj⟩ := List.getElem?_of_mem hmem
  have honce := (hclosed j _ hj n ((Text.lineReads_iff hspaced _ n).mpr hn)).1
  rw [hls.lines_eq, Text.declared_append, List.count_append, hdeclares.declares,
    (Text.Continues.emptyLine T).declares] at honce
  simp at honce

end Shader.Parts

namespace Pass.Completed

variable {p : Pass} {env : Environment} {o : Outcome}

/-- **The function that writes the texture coordinates** is closed exactly if the first coordinate
has declarations, or if no coordinate that is written reads a temporary. -/
theorem closed_coordinates_iff (hp : Completed env o p) :
    Text.ClosedLines (Text.lines
        ((o.parts env p).coordinateAssignments ++ (o.parts env p).interpolatorAssignments)) ↔
      (o.properties.get (.customizedUV 0)).definitions ≠ "" ∨
        ∀ i ∈ (o.parts env p).readCoordinates, ∀ n,
          ¬ Text.Mentions (o.properties.get (.customizedUV i)).value.toList n := by
  have hordered := hp.sound.ordered (p.stageScopes.get .vertex)
  generalize hs : p.scope (p.stageScopes.get .vertex) = s at hordered
  have hcases : ∀ i : Fin 8,
      ((o.properties.get (.customizedUV i)).definitions = "" ∧
          Text.Reads (fun _ => False) (o.properties.get (.customizedUV i)).value) ∨
        ((o.properties.get (.customizedUV i)).definitions = s.declarations 0 s.length ∧
          Text.Reads (· ∈ s.temporaries) (o.properties.get (.customizedUV i)).value) :=
    fun i => hp.body_cases (by simp) hs
  have hreads : ∀ i : Fin 8,
      Text.Reads (· ∈ s.temporaries) (o.properties.get (.customizedUV i)).value := by
    intro i
    rcases hcases i with ⟨-, hvalue⟩ | ⟨-, hvalue⟩
    · exact hvalue.mono fun _ => False.elim
    · exact hvalue
  rw [Shader.Parts.coordinateAssignments_eq]
  by_cases hfirst : (o.properties.get (.customizedUV 0)).definitions = ""
  · have hempty : (if 0 < (o.parts env p).coordinates then
        ((o.parts env p).bodies.get (.customizedUV 0)).definitions else "") = "" := by
      split
      · exact hfirst
      · rfl
    rw [hempty, String.empty_append]
    constructor
    · intro hclosed
      refine .inr fun i hi n hn => ?_
      exact (o.parts env p).not_closed_of_mentions hreads hi hn hclosed
    · rintro (hne | hnone)
      · exact absurd hfirst hne
      · refine Text.Writes.closedLines (U := []) ?_ List.nodup_nil
        refine ((o.parts env p).writes_coordinates fun i hi => ?_).before
          (o.parts env p).writes_interpolators
        exact ⟨(hreads i).line, fun n hn => absurd hn (hnone i hi n)⟩
  · refine iff_of_true ?_ (.inl hfirst)
    split
    case isTrue =>
      have hall : (o.properties.get (.customizedUV 0)).definitions = s.declarations 0 s.length := by
        rcases hcases 0 with ⟨hempty, -⟩ | ⟨hall, -⟩
        · exact absurd hempty hfirst
        · exact hall
      have hwrites := hordered.writes_declarations (Nat.zero_le s.length)
      rw [List.take_length, List.drop_zero, ← hall] at hwrites
      refine Text.Writes.closedLines (U := s.temporaries) ?_ hordered.nodup_temporaries
      refine (hwrites.before ?_).before (o.parts env p).writes_interpolators
      exact (o.parts env p).writes_coordinates fun i _ => hreads i
    case isFalse hzero =>
      refine Text.Writes.closedLines (U := []) ?_ List.nodup_nil
      refine ((o.parts env p).writes_coordinates fun i hi => ?_).before
        (o.parts env p).writes_interpolators
      have hlt : i.val < (o.parts env p).coordinates := by
        simpa using (List.mem_filter.mp hi).2
      omega

end Pass.Completed

namespace Pass

/-- **The assembled functions.** In the source that comes of compiling any graph, the function that
computes the pixel inputs declares what it reads, exactly once and before. The function that writes
the texture coordinates does so exactly if the first coordinate has declarations, or if no
coordinate that is written reads a temporary. -/
theorem run_assembled (env : Environment) (g : Graph) {o : Outcome} {p : Pass}
    (h : run env (some g.expressions) {} = .ok o p) :
    o.source = (o.parts env p).source ∧
      Text.ClosedLines (Text.lines (o.parts env p).pixelFunction) ∧
      (Text.ClosedLines (Text.lines
          ((o.parts env p).coordinateAssignments ++ (o.parts env p).interpolatorAssignments)) ↔
        (o.properties.get (.customizedUV 0)).definitions ≠ "" ∨
          ∀ i ∈ (o.parts env p).readCoordinates, ∀ n,
            ¬ Text.Mentions (o.properties.get (.customizedUV i)).value.toList n) := by
  have hp := run_completed g.expressions_safe h
  exact ⟨hp.source, hp.closed_pixelFunction, hp.closed_coordinates_iff⟩

/-- A literal, a texture coordinate and its double. -/
def doubledCoordinate : Graph where
  nodes :=
    [.constant2 .half .half, .textureCoordinate 1 .none .one .one,
     .binary .add ⟨2, 0⟩ ⟨2, 0⟩ .zero .one]

/-- A material with customized coordinates. -/
def doubledMaterial (coordinates : List Input) : Environment where
  material :=
    { inputs := ((List.finRange 8).zip coordinates).foldl
        (fun inputs c => inputs.set (.customizedUV c.1) c.2)
        ((PropertyTable.const Input.none).set .emissiveColor ⟨3, 0⟩)
      customizedUVs := .ofNat coordinates.length }

/-- The first coordinate reads a temporary, and both functions declare what they read. -/
theorem run_assembled_doubledCoordinate :
    ∃ o p, run (doubledMaterial [⟨3, 0⟩, ⟨1, 0⟩]) (some doubledCoordinate.expressions) {} =
        .ok o p ∧
      Text.Mentions (o.properties.get (.customizedUV 0)).value.toList 1 ∧
      Text.Mentions (o.properties.get .emissiveColor).value.toList 0 ∧
      Text.ClosedLines (Text.lines (o.parts (doubledMaterial [⟨3, 0⟩, ⟨1, 0⟩]) p).pixelFunction) ∧
      Text.ClosedLines (Text.lines
        ((o.parts (doubledMaterial [⟨3, 0⟩, ⟨1, 0⟩]) p).coordinateAssignments ++
          (o.parts (doubledMaterial [⟨3, 0⟩, ⟨1, 0⟩]) p).interpolatorAssignments)) := by
  obtain ⟨o, p, h, hcoordinate, hcolor, hdefinitions⟩ :
      ∃ o p, run (doubledMaterial [⟨3, 0⟩, ⟨1, 0⟩]) (some doubledCoordinate.expressions) {} =
          .ok o p ∧
        Text.Mentions (o.properties.get (.customizedUV 0)).value.toList 1 ∧
        Text.Mentions (o.properties.get .emissiveColor).value.toList 0 ∧
        (o.properties.get (.customizedUV 0)).definitions ≠ "" := by decide +kernel
  obtain ⟨-, hpixel, hiff⟩ := run_assembled _ _ h
  exact ⟨o, p, h, hcoordinate, hcolor, hpixel, hiff.mpr (.inl hdefinitions)⟩

/-- The first coordinate is a literal, and the second reads a temporary that is declared nowhere in
the function that writes them, although the compilation succeeds. -/
theorem literal_coordinate_not_closed :
    ∃ o p, run (doubledMaterial [⟨1, 0⟩, ⟨3, 0⟩]) (some doubledCoordinate.expressions) {} =
        .ok o p ∧
      o.success = true ∧
      Text.Mentions (o.properties.get (.customizedUV 1)).value.toList 1 ∧
      ¬ Text.ClosedLines (Text.lines
        ((o.parts (doubledMaterial [⟨1, 0⟩, ⟨3, 0⟩]) p).coordinateAssignments ++
          (o.parts (doubledMaterial [⟨1, 0⟩, ⟨3, 0⟩]) p).interpolatorAssignments)) := by
  obtain ⟨o, p, h, hsuccess, hmentions, hdefinitions, hread⟩ :
      ∃ o p, run (doubledMaterial [⟨1, 0⟩, ⟨3, 0⟩]) (some doubledCoordinate.expressions) {} =
          .ok o p ∧
        o.success = true ∧
        Text.Mentions (o.properties.get (.customizedUV 1)).value.toList 1 ∧
        (o.properties.get (.customizedUV 0)).definitions = "" ∧
        1 ∈ (o.parts (doubledMaterial [⟨1, 0⟩, ⟨3, 0⟩]) p).readCoordinates := by decide +kernel
  have hp := run_completed doubledCoordinate.expressions_safe h
  refine ⟨o, p, h, hsuccess, hmentions, fun hclosed => ?_⟩
  rcases hp.closed_coordinates_iff.mp hclosed with hne | hnone
  · exact hne hdefinitions
  · exact hnone 1 hread 1 hmentions

end Pass

end ShaderGraph
