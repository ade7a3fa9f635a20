import ShaderGraph.Pass.State
import ShaderGraph.Text.Pattern

/-!
# Which temporaries a text mentions

Generated code is a text, and what it reads are the names in it. A text is cut into words at every
character that cannot stand in a name; it mentions a temporary if one of its words is the name of
the temporary.

Texts are put together from pieces, and a name could come about where two pieces meet. It does not
where the first piece ends, or the second begins, in a way that no name of a temporary goes on with
(`closes`, `opens`); all of the generated code is put together like that. `Reads T t` says that `t`
stays on one line and mentions only temporaries of `T`.
-/

namespace ShaderGraph.Text

variable {c : Char} {a t b rest : List Char} {n : Nat} {args : List String}

/-! ### Words -/

/-- Whether a character can stand in a name. -/
def isWordChar (c : Char) : Bool := c.isAlphanum || c == '_'

/-- The words of a text, with an empty one between two characters that stand in no name. -/
def words (t : List Char) : List (List Char) := t.splitOnP (!isWordChar ·)

/-- The characters of the name of a temporary. -/
def nameChars (n : Nat) : List Char := (temporaryName n).toList

/-- Whether a text mentions the temporary with the given number. -/
def Mentions (t : List Char) (n : Nat) : Prop := nameChars n ∈ words t

instance (t : List Char) (n : Nat) : Decidable (Mentions t n) :=
  inferInstanceAs (Decidable (nameChars n ∈ words t))

theorem words_append_break (a b : List Char) (hc : isWordChar c = false) :
    words (a ++ c :: b) = words a ++ words b :=
  List.splitOnP_append_cons a b (by simp [hc])

theorem words_eq_singleton (h : ∀ c ∈ a, isWordChar c = true) : words a = [a] :=
  List.splitOnP_eq_singleton fun c hc => by simp [h c hc]

/-- A word has characters of its text only. -/
theorem mem_of_mem_words {w : List Char} (hw : w ∈ words t) (hc : c ∈ w) : c ∈ t := by
  induction t generalizing w with
  | nil => simp_all [words]
  | cons x t ih =>
    rw [words, List.splitOnP_cons_eq_if_modifyHead] at hw
    split at hw
    · rcases List.mem_cons.mp hw with rfl | hw
      · simp at hc
      · exact List.mem_cons_of_mem _ (ih hw hc)
    · obtain ⟨v, vs, hvs⟩ := List.exists_cons_of_ne_nil (List.splitOnP_ne_nil (!isWordChar ·) t)
      rw [hvs, List.modifyHead_cons, List.mem_cons] at hw
      rcases hw with rfl | hw
      · rcases List.mem_cons.mp hc with rfl | hc
        · exact List.mem_cons_self
        · exact List.mem_cons_of_mem _ (ih (w := v) (by simp [words, hvs]) hc)
      · exact List.mem_cons_of_mem _ (ih (w := w) (by simp [words, hvs, hw]) hc)

/-- The word that a text begins with. -/
def headWord (t : List Char) : List Char := t.takeWhile isWordChar

/-- The word that a text ends with. -/
def lastWord (t : List Char) : List Char := (t.reverse.takeWhile isWordChar).reverse

theorem isWordChar_of_mem_headWord (h : c ∈ headWord t) :
    isWordChar c = true := List.all_eq_true.mp List.all_takeWhile c h

theorem isWordChar_of_mem_lastWord (h : c ∈ lastWord t) :
    isWordChar c = true := isWordChar_of_mem_headWord (t := t.reverse) (List.mem_reverse.mp h)

/-- A text is a word, or a word followed by a character that stands in no name. -/
theorem headWord_or_break (t : List Char) :
    t = headWord t ∨ ∃ c rest, isWordChar c = false ∧ t = headWord t ++ c :: rest := by
  have hsplit : headWord t ++ t.dropWhile isWordChar = t := List.takeWhile_append_dropWhile
  cases hrest : t.dropWhile isWordChar with
  | nil => exact .inl (by rw [hrest, List.append_nil] at hsplit; exact hsplit.symm)
  | cons c rest =>
    refine .inr ⟨c, rest, ?_, by rw [← hrest, hsplit]⟩
    have := List.head?_dropWhile_not isWordChar t
    rw [hrest] at this
    simpa using this

/-- What stands in front of a text goes on with its first word only. -/
theorem exists_words_headWord (b : List Char) :
    ∃ ws, words b = headWord b :: ws ∧ ∀ a, words (a ++ b) = words (a ++ headWord b) ++ ws := by
  have hcut := headWord_or_break b
  have hword := words_eq_singleton fun c hc => isWordChar_of_mem_headWord (t := b) hc
  generalize headWord b = h at hcut hword ⊢
  rcases hcut with rfl | ⟨c, rest, hc, rfl⟩
  · exact ⟨[], hword, fun a => (List.append_nil _).symm⟩
  · refine ⟨words rest, ?_, fun a => ?_⟩
    · rw [words_append_break _ _ hc, hword]
      rfl
    · rw [← List.append_assoc]
      exact words_append_break _ _ hc

/-- What stands behind a text goes on with its last word only. -/
theorem exists_words_lastWord (a : List Char) :
    ∃ ws, words a = ws ++ [lastWord a] ∧ ∀ b, words (a ++ b) = ws ++ words (lastWord a ++ b) := by
  have hcut := headWord_or_break a.reverse
  have hword := words_eq_singleton fun c hc => isWordChar_of_mem_lastWord (t := a) hc
  have hlast : headWord a.reverse = (lastWord a).reverse := (List.reverse_reverse _).symm
  rw [hlast] at hcut
  generalize lastWord a = l at hcut hword ⊢
  rcases hcut with h | ⟨c, rest, hc, h⟩
  · obtain rfl := List.reverse_inj.mp h
    exact ⟨[], hword, fun b => rfl⟩
  · obtain rfl : a = rest.reverse ++ c :: l := by simpa using congrArg List.reverse h
    refine ⟨words rest.reverse, ?_, fun b => ?_⟩
    · rw [words_append_break _ _ hc, hword]
    · rw [List.append_assoc]
      exact words_append_break _ _ hc

/-- The words of two texts put together: theirs, but for the two that meet, which become one. -/
theorem exists_words_append (a b : List Char) :
    ∃ ws vs, words a = ws ++ [lastWord a] ∧ words b = headWord b :: vs ∧
      words (a ++ b) = ws ++ (lastWord a ++ headWord b) :: vs := by
  obtain ⟨ws, ha, hab⟩ := exists_words_lastWord a
  obtain ⟨vs, hb, hba⟩ := exists_words_headWord b
  refine ⟨ws, vs, ha, hb, ?_⟩
  rw [hab, hba, words_eq_singleton]
  · rfl
  · intro c hc
    rcases List.mem_append.mp hc with hc | hc
    · exact isWordChar_of_mem_lastWord hc
    · exact isWordChar_of_mem_headWord hc

/-! ### Names of temporaries -/

theorem nameChars_eq (n : Nat) : nameChars n = "Local".toList ++ Nat.toDigits 10 n := by
  rw [nameChars, temporaryName, String.toList_append]
  exact congrArg _ Nat.toList_repr

theorem head?_nameChars (n : Nat) : (nameChars n).head? = some 'L' := by
  rw [nameChars_eq]
  rfl

/-- A name ends in a digit. -/
theorem getLast?_nameChars (n : Nat) :
    ∃ c, c.isDigit = true ∧ (nameChars n).getLast? = some c := by
  have hne : Nat.toDigits 10 n ≠ [] := Nat.toDigits_ne_nil
  refine ⟨(Nat.toDigits 10 n).getLast hne, ?_, ?_⟩
  · exact Nat.isDigit_of_mem_toDigits (by decide) (by decide) (List.getLast_mem hne)
  · rw [nameChars_eq, List.getLast?_append, List.getLast?_eq_some_getLast hne]
    rfl

/-- Different temporaries have different names. -/
theorem nameChars_injective {m : Nat} (h : nameChars m = nameChars n) : m = n := by
  rw [nameChars_eq, nameChars_eq] at h
  have hdigits := List.append_cancel_left h
  rw [← @Nat.ofDigitChars_ten_toDigits m, ← @Nat.ofDigitChars_ten_toDigits n, hdigits]

theorem isWordChar_of_mem_nameChars (h : c ∈ nameChars n) : isWordChar c = true := by
  rw [nameChars_eq, List.mem_append] at h
  rcases h with h | h
  · exact List.all_eq_true.mp (by decide : "Local".toList.all isWordChar = true) c h
  · have hdigit : c.isDigit = true := Nat.isDigit_of_mem_toDigits (by decide) (by decide) h
    simp [isWordChar, Char.isAlphanum, hdigit]

theorem words_nameChars (n : Nat) : words (nameChars n) = [nameChars n] :=
  words_eq_singleton fun _ h => isWordChar_of_mem_nameChars h

/-! ### Putting texts together -/

/-- Whether no name goes on from the end of a text into what follows. -/
def closes (t : List Char) : Bool := (lastWord t).head? != some 'L'

/-- Whether no name goes on from what stands before a text into its beginning. -/
def opens (t : List Char) : Bool := (headWord t).getLast?.all (!·.isDigit)

/-- What two texts mention together, where no name goes from one into the other. -/
theorem mentions_of_append (hjoin : closes a = true ∨ opens b = true) (h : Mentions (a ++ b) n) :
    Mentions a n ∨ Mentions b n := by
  obtain ⟨ws, vs, ha, hb, hab⟩ := exists_words_append a b
  rw [Mentions, hab, List.mem_append, List.mem_cons] at h
  rw [Mentions, ha, Mentions, hb]
  rcases h with h | h | h
  · exact .inl (List.mem_append_left _ h)
  · rcases hjoin with hclose | hopen
    · cases hl : lastWord a with
      | nil => exact .inr (by rw [h, hl]; exact List.mem_cons_self)
      | cons c l =>
        have hhead := head?_nameChars n
        rw [h, hl] at hhead
        simp only [closes, hl] at hclose
        exact absurd hhead (by simpa using hclose)
    · cases hw : headWord b with
      | nil => exact .inl (by simp [h, hw])
      | cons c w =>
        obtain ⟨d, hdigit, hlast⟩ := getLast?_nameChars n
        have hb : (headWord b).getLast? = some d := by
          rw [h, List.getLast?_append, hw] at hlast
          simpa [hw] using hlast
        rw [opens, hb] at hopen
        exact absurd hdigit (by simpa using hopen)
  · exact .inr (List.mem_cons_of_mem _ h)

/-- What stands between two characters that belong to no name is mentioned by the whole. -/
theorem mentions_between {d : Char} (hc : isWordChar c = false) (hd : isWordChar d = false)
    (h : Mentions t n) : Mentions (a ++ c :: (t ++ d :: b)) n := by
  rw [Mentions, words_append_break _ _ hc, words_append_break _ _ hd]
  exact List.mem_append_right _ (List.mem_append_left _ h)

/-- A text without the first letter of the names mentions nothing. -/
theorem not_mentions_of_forall (h : ∀ c ∈ t, c ≠ 'L') (n : Nat) : ¬ Mentions t n := by
  intro hn
  have hmem : 'L' ∈ nameChars n := List.mem_of_mem_head? (head?_nameChars n)
  exact h 'L' (mem_of_mem_words hn hmem) rfl

/-- Whether no word of a text begins like the name of a temporary. -/
def isPlain (t : List Char) : Bool := (words t).all fun w => !"Local".toList.isPrefixOf w

theorem not_mentions_of_isPlain (h : isPlain t = true) (n : Nat) : ¬ Mentions t n := by
  intro hn
  have hname : "Local".toList.isPrefixOf (nameChars n) = true := by
    rw [nameChars_eq, List.isPrefixOf_iff_prefix]
    exact List.prefix_append _ _
  have hword := List.all_eq_true.mp h _ hn
  rw [hname] at hword
  exact absurd hword (by decide)

theorem isDigit_of_mem_natText (hc : c ∈ (toString n).toList) : c.isDigit = true := by
  rw [show toString n = n.repr from rfl, Nat.toList_repr] at hc
  exact Nat.isDigit_of_mem_toDigits (by decide) (by decide) hc

/-! ### Texts that read certain temporaries -/

/-- `t` stays on one line, and the temporaries that it mentions are among `T`. -/
structure Reads (T : Nat → Prop) (t : String) : Prop where
  line : '\n' ∉ t.toList
  among : ∀ n, Mentions t.toList n → T n

/-- Whether a text stays on one line and mentions no temporary. -/
def isFixed (t : String) : Bool := !t.toList.contains '\n' && isPlain t.toList

/-- Whether a fixed text can stand in front of any other. -/
def isFront (t : String) : Bool := isFixed t && closes t.toList

/-- Whether a fixed text can stand behind any other. -/
def isBack (t : String) : Bool := isFixed t && opens t.toList

/-- Whether a text begins with a character that stands in no name. -/
def beginsApart (t : String) : Bool := t.toList.head?.any (!isWordChar ·)

theorem opens_of_beginsApart {t : String} (h : beginsApart t = true) (rest : List Char) :
    opens (t.toList ++ rest) = true := by
  cases ht : t.toList with
  | nil => simp [beginsApart, ht] at h
  | cons c cs =>
    have hc : isWordChar c = false := by simpa [beginsApart, ht] using h
    simp [opens, headWord, hc]

/-- Whether a text ends with a character that stands in no name. -/
def endsApart (t : String) : Bool := t.toList.getLast?.any (!isWordChar ·)

theorem closes_of_endsApart (a : List Char) {t : String} (h : endsApart t = true) :
    closes (a ++ t.toList) = true := by
  rcases List.eq_nil_or_concat t.toList with ht | ⟨cs, c, ht⟩
  · simp [endsApart, ht] at h
  · have hc : isWordChar c = false := by simpa [endsApart, ht] using h
    simp [closes, lastWord, ht, hc]

theorem endsApart_append (a : String) {b : String} (h : endsApart b = true) :
    endsApart (a ++ b) = true := by
  rcases List.eq_nil_or_concat b.toList with hb | ⟨cs, c, hb⟩
  · simp [endsApart, hb] at h
  · simpa [endsApart, hb] using h

namespace Reads

variable {T S : Nat → Prop} {a b t : String}

theorem mono (h : ∀ n, T n → S n) (ht : Reads T t) : Reads S t :=
  ⟨ht.line, fun n hn => h n (ht.among n hn)⟩

theorem fixed (h : isFixed t = true) : Reads T t := by
  simp only [isFixed, Bool.and_eq_true, Bool.not_eq_true', List.contains_eq_mem,
    decide_eq_false_iff_not] at h
  exact ⟨h.1, fun n hn => absurd hn (not_mentions_of_isPlain h.2 n)⟩

theorem of_forall (h : ∀ c ∈ t.toList, c ≠ 'L' ∧ c ≠ '\n') : Reads T t :=
  ⟨fun hline => (h _ hline).2 rfl,
    fun n hn => absurd hn (not_mentions_of_forall (fun c hc => (h c hc).1) n)⟩

theorem append (ha : Reads T a) (hb : Reads T b)
    (h : closes a.toList = true ∨ opens b.toList = true) : Reads T (a ++ b) where
  line := by
    rw [String.toList_append, List.mem_append]
    exact fun hline => hline.elim ha.line hb.line
  among n hn := by
    rw [String.toList_append] at hn
    exact (mentions_of_append h hn).elim (ha.among n) (hb.among n)

/-- A text behind a fixed one. -/
theorem after (hx : Reads T t) (ha : isFront a = true) : Reads T (a ++ t) := by
  rw [isFront, Bool.and_eq_true] at ha
  exact (fixed ha.1).append hx (.inl ha.2)

/-- A text in front of a fixed one. -/
theorem before (hx : Reads T t) (hb : isBack b = true) : Reads T (t ++ b) := by
  rw [isBack, Bool.and_eq_true] at hb
  exact hx.append (fixed hb.1) (.inr hb.2)

/-- A text between two fixed ones. -/
theorem between (hx : Reads T t) (ha : isFront a = true) (hb : isBack b = true) :
    Reads T (a ++ t ++ b) := (hx.after ha).before hb

theorem temporaryName {n : Nat} (h : T n) : Reads T (temporaryName n) where
  line hline := by
    have := isWordChar_of_mem_nameChars (n := n) hline
    exact absurd this (by decide)
  among m hm := by
    have hmem : nameChars m ∈ words (nameChars n) := hm
    rw [words_nameChars, List.mem_singleton] at hmem
    exact nameChars_injective hmem ▸ h

theorem natText (n : Nat) : Reads T (toString n) := by
  refine of_forall fun c hc => ?_
  have hdigit := isDigit_of_mem_natText hc
  constructor <;> rintro rfl <;> exact absurd hdigit (by decide)

theorem intText (z : Int) : Reads T (toString z) := by
  cases z with
  | ofNat n => exact natText n
  | negSucc n => exact (natText (n + 1)).after (a := "-") (by decide)

/-- A text behind one that ends apart from it. -/
theorem append_apart (ha : Reads T (a ++ b)) (hb : endsApart b = true) (ht : Reads T t) :
    Reads T (a ++ b ++ t) := by
  refine ha.append ht (.inl ?_)
  rw [String.toList_append]
  exact closes_of_endsApart _ hb

/-- A call. -/
theorem call (ha : Reads T a) (ht : Reads T t) : Reads T (a ++ "(" ++ t ++ ")") :=
  ((ha.before (by decide)).append_apart (by decide) ht).before (by decide)

/-- Texts with a separator between them. -/
theorem intercalate {ts : List String} {sep : String} (hsep : isFront sep = true)
    (hapart : beginsApart sep = true) (h : ∀ t ∈ ts, Reads T t) : Reads T (sep.intercalate ts) := by
  induction ts with
  | nil => exact fixed rfl
  | cons t rest ih =>
    cases rest with
    | nil => simpa using h t
    | cons u rest =>
      have hrest := ih fun v hv => h v (List.mem_cons_of_mem _ hv)
      rw [String.intercalate_cons_cons, String.append_assoc]
      refine (h t (by simp)).append (hrest.after hsep) (.inr ?_)
      rw [String.toList_append]
      exact opens_of_beginsApart hapart _

end Reads

/-! ### Patterns -/

/-- Whether what follows a hole of a pattern is neither a part of a name nor another hole. -/
def followsHole : List Char → Bool
  | [] => true
  | c :: _ => !isWordChar c && c != '%'

/-- Whether the holes of a pattern, of which `piece` was read since the last hole, stand apart from
the words around them, and these are plain. -/
def isFrame (piece : List Char) : List Char → Bool
  | '%' :: 's' :: rest => isPlain piece && closes piece && followsHole rest && isFrame [] rest
  | c :: rest => isFrame (piece ++ [c]) rest
  | [] => isPlain piece

/-- What follows a hole opens whatever its own holes are filled with. -/
theorem opens_fillChars (h : followsHole rest = true) (args : List String) :
    opens (fillChars rest args) = true := by
  cases rest with
  | nil => simp [fillChars, opens, headWord]
  | cons c rest =>
    simp only [followsHole, Bool.and_eq_true, Bool.not_eq_true', bne_iff_ne] at h
    have hfill : fillChars (c :: rest) args = c :: fillChars rest args := by
      rw [fillChars]
      exact fun _ heq => absurd heq h.2
    simp [hfill, opens, headWord, h.1]

/-- What a filled pattern mentions, it has from what it was filled with. -/
theorem exists_mentions_of_fillChars {piece : List Char} (hframe : isFrame piece rest = true)
    (h : Mentions (piece ++ fillChars rest args) n) : ∃ a ∈ args, Mentions a.toList n := by
  fun_induction isFrame piece rest generalizing args with
  | case1 piece rest ih =>
    simp only [Bool.and_eq_true] at hframe
    obtain ⟨⟨⟨hplain, hcloses⟩, hfollows⟩, hrest⟩ := hframe
    rcases mentions_of_append (.inl hcloses) h with h | h
    · exact absurd h (not_mentions_of_isPlain hplain n)
    · rcases mentions_of_append (.inr (opens_fillChars hfollows _)) h with h | h
      · cases args with
        | nil => exact absurd h (not_mentions_of_isPlain (by decide) n)
        | cons a args => exact ⟨a, by simp, h⟩
      · obtain ⟨a, ha, hn⟩ := ih hrest h
        exact ⟨a, List.mem_of_mem_tail ha, hn⟩
  | case2 piece c rest hne ih =>
    refine ih hframe ?_
    rw [fillChars] at h
    · simpa using h
    · exact hne
  | case3 piece =>
    rw [fillChars, List.append_nil] at h
    exact absurd h (not_mentions_of_isPlain hframe n)

theorem not_mem_fillChars {pattern : List Char} (hpattern : c ∉ pattern)
    (hargs : ∀ a ∈ args, c ∉ a.toList) : c ∉ fillChars pattern args := by
  fun_induction fillChars pattern args with
  | case1 rest args ih =>
    rw [List.mem_append]
    rintro (h | h)
    · cases args with
      | nil => simp at h
      | cons a args => exact hargs a (by simp) h
    · exact ih (fun hc => hpattern (by simp [hc]))
        (fun a ha => hargs a (List.mem_of_mem_tail ha)) h
  | case2 rest args x hne ih =>
    rw [List.mem_cons]
    rintro (rfl | h)
    · exact hpattern (by simp)
    · exact ih (fun hc => hpattern (by simp [hc])) hargs h
  | case3 => simp

/-- Whether a pattern stays on one line and has its holes apart from its words. -/
def isPattern (pattern : String) : Bool :=
  !pattern.toList.contains '\n' && isFrame [] pattern.toList

theorem Reads.fill {T : Nat → Prop} {pattern : String} (hpattern : isPattern pattern = true)
    (hargs : ∀ a ∈ args, Reads T a) : Reads T (fill pattern args) := by
  simp only [isPattern, Bool.and_eq_true, Bool.not_eq_true', List.contains_eq_mem,
    decide_eq_false_iff_not] at hpattern
  have hchars : (Text.fill pattern args).toList = fillChars pattern.toList args :=
    String.toList_ofList
  refine ⟨?_, fun n hn => ?_⟩
  · rw [hchars]
    exact not_mem_fillChars hpattern.1 fun a ha => (hargs a ha).line
  · rw [hchars] at hn
    obtain ⟨a, ha, hn⟩ := exists_mentions_of_fillChars hpattern.2 hn
    exact (hargs a ha).among n hn

end ShaderGraph.Text
