import ShaderGraph.Pass.Body
import ShaderGraph.Proofs.Words

/-!
# Declarations come before what reads them

A line declares what it mentions before its first equals sign and reads what it mentions from there
on. The chunks of a scope are in order when each mentions only temporaries of chunks before it
(`Scope.Ordered`); then every temporary that the declarations of the scope read is declared once,
on a line before (`Scope.Ordered.continues`, `Scope.Ordered.closed_body`).
-/

namespace ShaderGraph

variable {c : Chunk}

namespace Text

variable {front : List Char}

/-! ### Lines -/

/-- The lines of a text. -/
def lines (t : String) : List (List Char) := t.toList.splitOn '\n'

/-- The words that lines have before their first equals signs. -/
def declared (ls : List (List Char)) : List (List Char) :=
  ls.flatMap fun l => words (l.takeWhile (· != '='))

/-- Whether a line mentions a temporary from its first equals sign on. -/
def LineReads (l : List Char) (n : Nat) : Prop := Mentions (l.dropWhile (· != '=')) n

/-- A temporary is declared exactly once in lines, and that before line `i`. -/
def DeclaredOnce (ls : List (List Char)) (i n : Nat) : Prop :=
  (declared ls).count (nameChars n) = 1 ∧ (declared (ls.take i)).count (nameChars n) = 1

/-- What a line reads is declared exactly once, on a line before it. -/
def ClosedLines (ls : List (List Char)) : Prop :=
  ∀ i l, ls[i]? = some l → ∀ n, LineReads l n → DeclaredOnce ls i n

theorem takeWhile_equals (h : '=' ∉ front) (rest : List Char) :
    (front ++ '=' :: rest).takeWhile (· != '=') = front := by
  rw [List.takeWhile_append_of_pos, List.takeWhile_cons_of_neg (by simp), List.append_nil]
  intro c hc
  simp only [bne_iff_ne]
  rintro rfl
  exact h hc

theorem dropWhile_equals (h : '=' ∉ front) (rest : List Char) :
    (front ++ '=' :: rest).dropWhile (· != '=') = '=' :: rest := by
  rw [List.dropWhile_append_of_pos, List.dropWhile_cons_of_neg (by simp)]
  intro c hc
  simp only [bne_iff_ne]
  rintro rfl
  exact h hc

/-- A line reads what the text behind its first equals sign mentions. -/
theorem lineReads_iff (h : '=' ∉ front) (text : String) (n : Nat) :
    LineReads (front ++ '=' :: (" " ++ text ++ ";").toList) n ↔ Mentions text.toList n := by
  have hline : '=' :: (" " ++ text ++ ";").toList = ['='] ++ ' ' :: (text.toList ++ ';' :: []) := by
    simp
  rw [LineReads, dropWhile_equals h, hline]
  refine ⟨fun hn => ?_, mentions_between (by decide) (by decide)⟩
  rw [Mentions, words_append_break _ _ (by decide), words_append_break _ _ (by decide),
    List.mem_append, List.mem_append] at hn
  rcases hn with hn | hn | hn
  · exact absurd hn (not_mentions_of_isPlain (by decide) n)
  · exact hn
  · exact absurd hn (not_mentions_of_isPlain (by decide) n)

/-- `t` consists of the lines `ls`, each of them ended. -/
structure IsLines (t : String) (ls : List (List Char)) : Prop where
  text : t.toList = ls.flatMap (· ++ ['\n'])
  line : ∀ l ∈ ls, '\n' ∉ l

namespace IsLines

variable {a b : String} {ls ks : List (List Char)}

theorem empty : IsLines "" [] := ⟨rfl, by simp⟩

theorem append (ha : IsLines a ls) (hb : IsLines b ks) : IsLines (a ++ b) (ls ++ ks) where
  text := by rw [String.toList_append, ha.text, hb.text, List.flatMap_append]
  line := List.forall_mem_append.mpr ⟨ha.line, hb.line⟩

/-- The last line of such a text is empty. -/
theorem lines_eq (h : IsLines a ls) : lines a = ls ++ [[]] := by
  rw [lines, h.text, List.splitOn_eq_splitOnP]
  have hline := h.line
  clear h
  induction ls with
  | nil => rfl
  | cons l ls ih =>
    have hl : ∀ c ∈ l, (c == '\n') = false := by
      intro c hc
      have := hline l (by simp)
      simp only [beq_eq_false_iff_ne]
      rintro rfl
      exact this hc
    rw [List.flatMap_cons, List.append_assoc, List.singleton_append,
      List.splitOnP_append_cons _ _ (by simp), List.splitOnP_eq_singleton hl,
      ih fun k hk => hline k (by simp [hk])]
    rfl

end IsLines

theorem declared_append (ls ks : List (List Char)) :
    declared (ls ++ ks) = declared ls ++ declared ks := List.flatMap_append

/-- Where the temporaries `T` are declared, the lines `ls` read none but these and those that they
declare themselves on earlier lines; they declare `U`. -/
structure Continues (T : List Nat) (ls : List (List Char)) (U : List Nat) : Prop where
  declares : ∀ n, (declared ls).count (nameChars n) = U.count n
  reads : ∀ i l, ls[i]? = some l → ∀ n, LineReads l n →
    n ∈ T ∨ 0 < (declared (ls.take i)).count (nameChars n)

namespace Continues

variable {T U V : List Nat} {ls ks : List (List Char)} {l : List Char}

theorem nil (T : List Nat) : Continues T [] [] := ⟨fun _ => rfl, by simp⟩

/-- A single line. -/
theorem single (hdeclares : ∀ n, (words (l.takeWhile (· != '='))).count (nameChars n) = U.count n)
    (hreads : ∀ n, LineReads l n → n ∈ T) : Continues T [l] U := by
  refine ⟨fun n => ?_, fun i k hk n hn => .inl ?_⟩
  · rw [← hdeclares n]
    simp [declared]
  · rw [List.getElem?_singleton] at hk
    split at hk
    · cases hk
      exact hreads n hn
    · simp at hk

/-- A line that declares no temporary. -/
theorem silent (hl : ∀ n, ¬ Mentions (l.takeWhile (· != '=')) n)
    (hreads : ∀ n, LineReads l n → n ∈ T) : Continues T [l] [] :=
  single (fun n => List.count_eq_zero.mpr (hl n)) hreads

theorem emptyLine (T : List Nat) : Continues T [[]] [] :=
  silent (fun n => not_mentions_of_isPlain (by decide) n)
    fun n hn => absurd hn (not_mentions_of_isPlain (by decide) n)

theorem append (h : Continues T ls U) (h' : Continues (T ++ U) ks V) :
    Continues T (ls ++ ks) (U ++ V) := by
  refine ⟨fun n => ?_, fun i l hl n hn => ?_⟩
  · rw [declared_append, List.count_append, List.count_append, h.declares, h'.declares]
  rcases Nat.lt_or_ge i ls.length with hlt | hge
  · rw [List.getElem?_append_left hlt] at hl
    rw [List.take_append_of_le_length (Nat.le_of_lt hlt)]
    exact h.reads i l hl n hn
  · rw [List.getElem?_append_right hge] at hl
    have htake : (ls ++ ks).take i = ls ++ ks.take (i - ls.length) := by
      rw [List.take_append, List.take_of_length_le hge]
    rw [htake, declared_append, List.count_append, h.declares]
    rcases h'.reads _ l hl n hn with hmem | hcount
    · rcases List.mem_append.mp hmem with hT | hU
      · exact .inl hT
      · exact .inr (Nat.lt_of_lt_of_le (List.count_pos_iff.mpr hU) (Nat.le_add_right _ _))
    · exact .inr (Nat.lt_of_lt_of_le hcount (Nat.le_add_left _ _))

/-- What is declared at all is declared once if no temporary is declared twice. -/
theorem declaredOnce (h : Continues T ls U) (hU : U.Nodup) {i n : Nat}
    (hn : 0 < (declared (ls.take i)).count (nameChars n)) : DeclaredOnce ls i n := by
  have hsplit : (declared ls).count (nameChars n) =
      (declared (ls.take i)).count (nameChars n) + (declared (ls.drop i)).count (nameChars n) := by
    rw [← List.count_append, ← declared_append, List.take_append_drop]
  have hle : (declared ls).count (nameChars n) ≤ 1 := by
    rw [h.declares, hU.count]
    split <;> omega
  exact ⟨by omega, by omega⟩

theorem closedLines (h : Continues [] ls U) (hU : U.Nodup) : ClosedLines ls := by
  intro i l hl n hn
  rcases h.reads i l hl n hn with hmem | hcount
  · simp at hmem
  · exact h.declaredOnce hU hcount

end Continues

end Text

/-! ### Scopes in order -/

/-- The number of the temporary that a chunk is assigned to. -/
def Chunk.temporary? (c : Chunk) : Option Nat :=
  match c.form with
  | .temporary number => some number
  | _ => none

/-- The numbers of the temporaries of a scope. -/
def Scope.temporaries (s : Scope) : List Nat := s.filterMap Chunk.temporary?

@[simp] theorem Scope.temporaries_append (s r : Scope) :
    Scope.temporaries (s ++ r) = s.temporaries ++ r.temporaries := List.filterMap_append

@[simp] theorem Scope.mem_temporaries_singleton {n : Nat} :
    n ∈ Scope.temporaries [c] ↔ c.temporary? = some n := by simp [Scope.temporaries]

/-- A chunk can follow the chunks of a scope: it reads temporaries of theirs only, none if it stands
for a uniform expression, and is assigned to another temporary than they are. -/
structure Chunk.Follows (c : Chunk) (s : Scope) : Prop where
  reads : Text.Reads (· ∈ s.temporaries) c.text
  uniform : c.uniform?.isSome → Text.Reads (fun _ => False) c.text
  fresh : ∀ n, c.temporary? = some n → n ∉ s.temporaries

/-- The scope came about by adding one chunk after another that could follow. -/
inductive Scope.Ordered : Scope → Prop where
  | nil : Scope.Ordered []
  | push {s : Scope} {c : Chunk} : Scope.Ordered s → c.Follows s → Scope.Ordered (s ++ [c])

namespace Scope.Ordered

variable {s : Scope}

theorem follows (hs : s.Ordered) {i : Nat} {c : Chunk} (hc : s[i]? = some c) :
    c.Follows (s.take i) := by
  induction hs with
  | nil => simp at hc
  | @push s d hs hd ih =>
    rcases Nat.lt_or_ge i s.length with hlt | hge
    · rw [List.getElem?_append_left hlt] at hc
      rw [List.take_append_of_le_length (Nat.le_of_lt hlt)]
      exact ih hc
    · obtain ⟨hlen, hget⟩ := List.getElem?_eq_some_iff.mp hc
      obtain rfl : i = s.length := by simp at hlen; omega
      obtain rfl : d = c := by simpa using hget
      rwa [List.take_left]

theorem take (hs : s.Ordered) (n : Nat) : Scope.Ordered (s.take n) := by
  induction hs with
  | nil => simpa using Scope.Ordered.nil
  | @push s d hs hd ih =>
    rcases Nat.lt_or_ge n (s ++ [d]).length with hlt | hge
    · rw [List.take_append_of_le_length (by simp at hlt; omega)]
      exact ih
    · rw [List.take_of_length_le hge]
      exact hs.push hd

/-- No two chunks are assigned to one temporary. -/
theorem nodup_temporaries (hs : s.Ordered) : s.temporaries.Nodup := by
  induction hs with
  | nil => exact List.nodup_nil
  | @push s c hs hc ih =>
    rw [temporaries_append, List.nodup_append]
    refine ⟨ih, ?_, fun m hm n hn => ?_⟩
    · cases h : c.temporary? <;> simp [temporaries, h]
    · rintro rfl
      exact hc.fresh m (mem_temporaries_singleton.mp hn) hm

end Scope.Ordered

/-! ### The lines of a scope -/

/-- What stands before the equals sign of a declaration. -/
def declarationFront (type : ValueType) (number : Nat) : List Char :=
  ("\t" ++ type.sourceName ++ " ").toList ++ (Text.nameChars number ++ [' '])

/-- The line that declares a temporary, without its end. -/
def declarationLine (type : ValueType) (number : Nat) (text : String) : List Char :=
  declarationFront type number ++ '=' :: (" " ++ text ++ ";").toList

/-- The line that declares the temporary of a chunk. -/
def Chunk.line? (c : Chunk) : Option (List Char) :=
  c.temporary?.map fun n => declarationLine c.type n c.text

/-- The lines that declare the temporaries of a scope. -/
def Scope.lines (s : Scope) : List (List Char) := s.filterMap Chunk.line?

theorem isFixed_sourceName (t : ValueType) : Text.isFixed t.sourceName = true := by
  unfold ValueType.sourceName ValueType.name
  split <;> try decide
  split <;> decide

theorem not_mem_sourceName (t : ValueType) : '=' ∉ t.sourceName.toList := by
  unfold ValueType.sourceName ValueType.name
  split <;> try decide
  split <;> decide

theorem not_mem_declarationFront (type : ValueType) (number : Nat) :
    '=' ∉ declarationFront type number := by
  have hname : '=' ∉ Text.nameChars number := fun h =>
    absurd (Text.isWordChar_of_mem_nameChars h) (by decide)
  simp [declarationFront, not_mem_sourceName, hname]

/-- The front of a declaration has the name of its temporary among its words, once. -/
theorem count_words_declarationFront (type : ValueType) (number n : Nat) :
    (Text.words (declarationFront type number)).count (Text.nameChars n) =
      [number].count n := by
  have hfront : declarationFront type number =
      ("\t" ++ type.sourceName).toList ++ ' ' :: (Text.nameChars number ++ ' ' :: []) := by
    simp [declarationFront]
  have htype : (Text.words ("\t" ++ type.sourceName).toList).count (Text.nameChars n) = 0 := by
    have hreads : Text.Reads (fun _ => False) ("\t" ++ type.sourceName) :=
      (Text.Reads.fixed (isFixed_sourceName type)).after (by decide)
    exact List.count_eq_zero.mpr (hreads.among n)
  have hempty : (Text.words []).count (Text.nameChars n) = 0 :=
    List.count_eq_zero.mpr (Text.not_mentions_of_isPlain (by decide) n)
  rw [hfront, Text.words_append_break _ _ (by decide), Text.words_append_break _ _ (by decide),
    Text.words_nameChars, List.count_append, List.count_append, htype, hempty]
  by_cases h : number = n
  · subst h
    simp
  · have hne : Text.nameChars number ≠ Text.nameChars n := fun heq =>
      h (Text.nameChars_injective heq)
    simp [h, hne]

/-- The declaration of a chunk is its line, ended. -/
theorem Chunk.isLines_declaration {T : Nat → Prop} (h : Text.Reads T c.text) :
    Text.IsLines c.declaration c.line?.toList := by
  unfold declaration line? temporary?
  cases c.form with
  | inline | uniform u => exact .empty
  | temporary n =>
    refine ⟨by simp [declarationLine, declarationFront, Text.nameChars], ?_⟩
    have htype : '\n' ∉ c.type.sourceName.toList :=
      (Text.Reads.fixed (T := T) (isFixed_sourceName c.type)).line
    have hname : '\n' ∉ Text.nameChars n := fun h =>
      absurd (Text.isWordChar_of_mem_nameChars h) (by decide)
    simp [declarationLine, declarationFront, htype, hname, h.line]

namespace Scope

@[simp] theorem lines_append (s r : Scope) : Scope.lines (s ++ r) = s.lines ++ r.lines :=
  List.filterMap_append

namespace Ordered

variable {s : Scope}

/-- **Declarations in order**: what the declarations of a scope read is declared before. A chunk
that can follow a scope declares a new temporary, or none. -/
theorem continues (hs : s.Ordered) (k : Nat) :
    Text.Continues (Scope.temporaries (s.take k)) (Scope.lines (s.drop k))
      (Scope.temporaries (s.drop k)) := by
  induction hs with
  | nil => simpa [lines, temporaries] using Text.Continues.nil []
  | @push s c hs hc ih =>
    rcases Nat.lt_or_ge s.length k with hlt | hge
    · have hdrop : (s ++ [c]).drop k = [] := List.drop_eq_nil_of_le (by simp; omega)
      rw [hdrop]
      exact Text.Continues.nil _
    · rw [List.take_append_of_le_length hge, List.drop_append_of_le_length hge, lines_append,
        temporaries_append]
      refine ih.append ?_
      rw [← temporaries_append, List.take_append_drop]
      cases hnumber : c.temporary? with
      | none => simpa [lines, temporaries, Chunk.line?, hnumber] using Text.Continues.nil _
      | some number =>
        have hlines : Scope.lines [c] = [declarationLine c.type number c.text] := by
          simp [lines, Chunk.line?, hnumber]
        have hnumbers : Scope.temporaries [c] = [number] := by simp [temporaries, hnumber]
        rw [hlines, hnumbers]
        have hequals := not_mem_declarationFront c.type number
        refine .single (fun n => ?_) fun n hn => hc.reads.among n ?_
        · rw [declarationLine, Text.takeWhile_equals hequals, count_words_declarationFront]
        · exact (Text.lineReads_iff hequals c.text n).mp hn

/-- Every chunk stays on one line. -/
theorem reads (hs : s.Ordered) {c : Chunk} (hc : c ∈ s) : Text.Reads (fun _ => True) c.text := by
  obtain ⟨i, hi⟩ := List.getElem?_of_mem hc
  exact (hs.follows hi).reads.mono fun _ _ => trivial

end Ordered

/-- The declarations of chunks are their lines. -/
theorem isLines_join {cs : Scope} (h : ∀ c ∈ cs, Text.Reads (fun _ => True) c.text) :
    Text.IsLines (String.join (cs.map Chunk.declaration)) cs.lines := by
  induction cs with
  | nil => exact .empty
  | cons c cs ih =>
    have hlines : Scope.lines (c :: cs) = c.line?.toList ++ Scope.lines cs := by
      cases hl : c.line? <;> simp [lines, hl]
    rw [List.map_cons, String.join_cons, hlines]
    exact (Chunk.isLines_declaration (h c (by simp))).append (ih fun d hd => h d (by simp [hd]))

namespace Ordered

variable {s : Scope}

theorem isLines_declarations (hs : s.Ordered) (start stop : Nat) :
    Text.IsLines (s.declarations start stop) (Scope.lines ((s.take stop).drop start)) :=
  isLines_join fun _ hc => hs.reads (List.mem_of_mem_take (List.mem_of_mem_drop hc))

/-- Declarations up to one place and from there on are the declarations up to the second place. -/
theorem isLines_declarations_append (hs : s.Ordered) {start stop : Nat} (h : start ≤ stop) :
    Text.IsLines (s.declarations 0 start ++ s.declarations start stop)
      (Scope.lines (s.take stop)) := by
  have happend := (hs.isLines_declarations 0 start).append (hs.isLines_declarations start stop)
  have htake : s.take start = (s.take stop).take start := by
    rw [List.take_take, Nat.min_eq_left h]
  rwa [List.drop_zero, ← lines_append, htake, List.take_append_drop] at happend

end Ordered

end Scope

/-! ### Bodies -/

/-- The code of a result is closed if it stands after the given declarations: what its definitions
and its value read is declared exactly once, on a line before. -/
structure Body.Closed (before : String) (b : Body) : Prop where
  definitions : Text.ClosedLines (Text.lines (before ++ b.definitions))
  value : ∀ n, Text.Mentions b.value.toList n →
    Text.DeclaredOnce (Text.lines (before ++ b.definitions))
      (Text.lines (before ++ b.definitions)).length n

namespace Scope.Ordered

variable {s : Scope} {before : String} {b : Body} {i stop start : Nat}

/-- A value is closed after all declarations of a scope whose temporaries it reads. -/
theorem closed_of_isLines (hs : s.Ordered)
    (hlines : Text.IsLines (before ++ b.definitions) s.lines)
    (hvalue : Text.Reads (· ∈ s.temporaries) b.value) : b.Closed before := by
  have hcontinues : Text.Continues [] (s.lines ++ [[]]) (s.temporaries ++ []) :=
    (hs.continues 0).append (.emptyLine _)
  rw [List.append_nil] at hcontinues
  refine ⟨?_, fun n hn => ?_⟩
  · rw [hlines.lines_eq]
    exact hcontinues.closedLines hs.nodup_temporaries
  · rw [hlines.lines_eq]
    refine hcontinues.declaredOnce hs.nodup_temporaries ?_
    rw [List.take_length, hcontinues.declares]
    exact List.count_pos_iff.mpr (hvalue.among n hn)

/-- What reads a chunk mentions temporaries of the scope up to it. -/
theorem reads_plainText (hs : s.Ordered) {c : Chunk} (hc : s[i]? = some c) :
    Text.Reads (· ∈ Scope.temporaries (s.take (i + 1))) (Context.plainText c) := by
  have hsub : s.take (i + 1) = s.take i ++ [c] := by
    rw [List.take_add_one, hc]
    rfl
  unfold Context.plainText
  split
  case h_1 number hform =>
    refine .temporaryName ?_
    simp [hsub, Scope.temporaries, Chunk.temporary?, hform]
  case h_2 =>
    refine (hs.follows hc).reads.mono fun n hn => ?_
    rw [hsub, Scope.temporaries_append]
    exact List.mem_append_left _ hn

theorem mem_temporaries_take {n : Nat} (h : i ≤ stop) (hn : n ∈ Scope.temporaries (s.take i)) :
    n ∈ Scope.temporaries (s.take stop) := by
  obtain ⟨c, hc, hnumber⟩ := List.mem_filterMap.mp hn
  have htake : s.take i = (s.take stop).take i := by rw [List.take_take, Nat.min_eq_left h]
  rw [htake] at hc
  exact List.mem_filterMap.mpr ⟨c, List.mem_of_mem_take hc, hnumber⟩

/-- The body of a result either needs no definitions, or has all declarations of its part of the
scope as its definitions and reads temporaries of the scope. -/
theorem body_ok (hs : s.Ordered) {c : Code} (hbody : s.body start stop c = .ok b)
    (hc : ∀ i, c = some i → i < stop) :
    (b.definitions = "" ∧ Text.Reads (fun _ => False) b.value) ∨
      (b.definitions = s.declarations start stop ∧
        Text.Reads (· ∈ Scope.temporaries (s.take stop)) b.value) := by
  cases c with
  | none =>
    cases hbody
    exact .inl ⟨rfl, .fixed (t := "0") (by decide)⟩
  | some i =>
    cases hd : s[i]? with
    | none => simp [Scope.body, hd] at hbody
    | some d =>
      have hreads : Text.Reads (· ∈ Scope.temporaries (s.take stop)) (Context.plainText d) :=
        (hs.reads_plainText hd).mono fun n hn => mem_temporaries_take (hc i rfl) hn
      cases hform : d.form with
      | inline =>
        simp only [Scope.body, hd, hform] at hbody
        cases hbody
        exact .inr ⟨rfl, by simpa [Context.plainText, hform] using hreads⟩
      | temporary number =>
        simp only [Scope.body, hd, hform] at hbody
        cases hbody
        exact .inr ⟨rfl, by simpa [Context.plainText, hform] using hreads⟩
      | uniform u =>
        simp only [Scope.body, hd, hform] at hbody
        split at hbody
        case isTrue =>
          cases hbody
          exact .inl ⟨rfl, (hs.follows hd).uniform (by simp [Chunk.uniform?, hform])⟩
        case isFalse => simp at hbody

/-- **Bodies are closed**: the body of a result that stands before `stop` is closed after the
declarations up to where its own start. -/
theorem closed_body (hs : s.Ordered) {c : Code} (hbody : s.body start stop c = .ok b)
    (hstart : start ≤ stop) (hc : ∀ i, c = some i → i < stop) :
    b.Closed (s.declarations 0 start) := by
  rcases hs.body_ok hbody hc with ⟨hdefinitions, hvalue⟩ | ⟨hdefinitions, hvalue⟩
  · have hlines := hs.isLines_declarations 0 start
    refine (hs.take start).closed_of_isLines ?_ (hvalue.mono fun _ => False.elim)
    rwa [hdefinitions, String.append_empty]
  · refine (hs.take stop).closed_of_isLines ?_ hvalue
    rw [hdefinitions]
    exact hs.isLines_declarations_append hstart

end Scope.Ordered

end ShaderGraph
