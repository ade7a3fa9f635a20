import Mathlib.Algebra.Order.Field.Rat
import Mathlib.Data.List.DropRight
import Mathlib.Tactic.FieldSimp
import Mathlib.Tactic.Linarith
import Mathlib.Tactic.Positivity
import Mathlib.Tactic.Ring
import ShaderGraph.Single.Decimal
import ShaderGraph.Single.Reading

/-!
# Shader literals are faithful

A literal is appended to what a buffer holds, and the loop that takes zeros off its end never
reaches back to it (`Single.appendLiteral_of_isFinite`).

The literal of a finite number is a decimal with one to eight places, none of them a zero to spare.
It is the exact value rounded to eight places, so it is off by half a unit of the last place at
most. From an eighth on numbers are farther apart than that, and the literal is read back as the
number it was written for (`Single.literal_faithful`). An eighth itself is the lower end of its
binade, where the number below is nearer, but it needs only three places.
-/

namespace ShaderGraph

/-! ### Values -/

/-- The value of a finite number. -/
def Single.value (x : Single) : ℚ := x.signedUnits / unitsPerOne

/-- The value of a numeral. -/
def Numeral.value (n : Numeral) : ℚ :=
  (if n.negative then -1 else 1) * n.digits * 10 ^ n.exponent

/-- Whether a finite number is the one nearest to `q`; of two that are equally near, the one with
the even code is. -/
def Single.IsNearest (x : Single) (q : ℚ) : Prop :=
  ∀ y : Single, y.isFinite → y.value ≠ x.value →
    |q - x.value| < |q - y.value| ∨ |q - x.value| = |q - y.value| ∧ x.code % 2 = 0

/-! ### Rounding to places -/

namespace Single

/-- A quotient is rounded by half of the divisor at most. -/
theorem roundDiv_near (n : Nat) {d : Nat} (hd : 0 < d) :
    2 * n ≤ 2 * (roundDiv n d * d) + d ∧ 2 * (roundDiv n d * d) ≤ 2 * n + d := by
  have hn := Nat.div_add_mod' n d
  have hlt := Nat.mod_lt n hd
  have hsucc : (n / d + 1) * d = n / d * d + d := Nat.succ_mul _ _
  simp only [roundDiv]
  split_ifs
  · omega
  · omega
  · rcases Nat.mod_two_eq_zero_or_one (n / d) with heven | hodd
    · rw [heven, Nat.add_zero]
      omega
    · rw [hodd]
      omega

/-- From an eighth on, the units of a number are a multiple of the units between numbers. -/
theorem units_dvd {x : Single} (h : 2 ^ 146 ≤ x.units) : 2 ^ 123 ∣ x.units := by
  have hfraction : x.code % fractionCount < 2 ^ 23 := Nat.mod_lt _ (by decide)
  have hcount : fractionCount = 2 ^ 23 := rfl
  simp only [units] at h ⊢
  generalize x.code % fractionCount = fraction at *
  generalize x.code / fractionCount = exponent at *
  split_ifs at h ⊢
  · omega
  · have hexponent : 123 ≤ exponent - 1 := by
      by_contra hlt
      have hle : Nat.pow 2 (exponent - 1) ≤ 2 ^ 122 :=
        Nat.pow_le_pow_right (by decide) (by omega)
      have := Nat.mul_le_mul (show fractionCount + fraction ≤ 2 ^ 24 - 1 by omega) hle
      omega
    exact Dvd.dvd.mul_left (Nat.pow_dvd_pow 2 hexponent) _

/-- How far `m` units of the eighth place are from a number, in small units. -/
def gap (m : ℤ) (y : Single) : Nat := (m * 2 ^ 149 - y.signedUnits * 10 ^ 8).natAbs

theorem cast_unitsPerOne : (unitsPerOne : ℚ) = 2 ^ 149 := by norm_num [unitsPerOne]

theorem abs_sub_value (m : ℤ) (y : Single) :
    |(m / 10 ^ 8 - y.value : ℚ)| = gap m y / (2 ^ 149 * 10 ^ 8) := by
  have hsub : (m / 10 ^ 8 - y.value : ℚ) =
      (m * 2 ^ 149 - y.signedUnits * 10 ^ 8 : ℤ) / (2 ^ 149 * 10 ^ 8) := by
    rw [value, cast_unitsPerOne]
    field_simp
    norm_num [mul_comm]
  rw [hsub, abs_div, gap, Nat.cast_natAbs, Int.cast_abs, abs_of_pos (a := _ * _) (by positivity)]

/-- The magnitude in units of the eighth place, with its sign. -/
def signedPlaces (x : Single) : ℤ :=
  if x.negative then -(x.decimalUnits literalPlaces : ℤ) else x.decimalUnits literalPlaces

/-- The decimal with eight places is off by half a unit of the last place at most. -/
theorem gap_signedPlaces (x : Single) : gap x.signedPlaces x ≤ 2 ^ 148 := by
  have hnear := roundDiv_near (x.units * 10 ^ 8) (show 0 < 2 ^ 149 by decide)
  unfold gap signedPlaces signedUnits
  rw [show x.decimalUnits literalPlaces = roundDiv (x.units * 10 ^ 8) (2 ^ 149) from rfl]
  split_ifs <;> omega

/-- No other number is as near to the decimal, if numbers are far enough apart. Zero and an eighth
are written exactly. -/
theorem gap_lt_gap {x y : Single} (h : x.units = 0 ∨ 2 ^ 146 ≤ x.units)
    (hne : y.signedUnits ≠ x.signedUnits) : gap x.signedPlaces x < gap x.signedPlaces y := by
  rcases (show (x.units = 0 ∨ x.units = 2 ^ 146) ∨ 2 ^ 146 < x.units by omega) with hshort | hlarge
  · have hexact : x.decimalUnits literalPlaces * 2 ^ 149 = x.units * 10 ^ 8 := by
      unfold decimalUnits
      rcases hshort with h | h
      · rw [h]
        decide
      · rw [h]
        decide
    have hplaces : x.signedPlaces * 2 ^ 149 = x.signedUnits * 10 ^ 8 := by
      have hcast : (x.decimalUnits literalPlaces : ℤ) * 2 ^ 149 = x.units * 10 ^ 8 := by
        exact_mod_cast hexact
      unfold signedPlaces signedUnits
      split_ifs
      · rw [neg_mul, hcast, neg_mul]
      · exact hcast
    rw [gap, gap, hplaces, sub_self, ← sub_mul]
    exact Int.natAbs_pos.2 (mul_ne_zero (sub_ne_zero.2 hne.symm) (by decide))
  · have hnear := x.gap_signedPlaces
    have hx := units_dvd hlarge.le
    have hy := @units_dvd y
    unfold gap signedPlaces signedUnits at *
    split_ifs at * <;> omega

/-! ### Digits -/

/-- Padded digits are digits, as many as asked for, and stand for the number. -/
theorem paddedDigits_spec {width n : Nat} (hwidth : 0 < width) (hn : n < 10 ^ width) :
    (paddedDigits width n).length = width ∧ (∀ c ∈ paddedDigits width n, c.isDigit) ∧
      Numeral.ofDigits (paddedDigits width n) = n := by
  have hlength := (Nat.length_toDigits_le_iff (by decide) hwidth).2 hn
  refine ⟨?_, fun c hc => ?_, ?_⟩
  · simp only [paddedDigits, List.length_append, List.length_replicate]
    omega
  · rcases List.mem_append.1 hc with hc | hc
    · rw [(List.mem_replicate.1 hc).2]
      rfl
    · exact Nat.isDigit_of_mem_toDigits (by decide) (by decide) hc
  · show Nat.ofDigitChars 10 (_ ++ _) 0 = n
    rw [Nat.ofDigitChars_append, Nat.ofDigitChars_replicate_zero, Nat.mul_zero,
      Nat.ofDigitChars_ten_toDigits]

/-- Only zeros are taken off the end, and none is left there but a first digit. -/
theorem trimZeros_spec {l : List Char} (h : l ≠ []) :
    trimZeros l ≠ [] ∧ ((trimZeros l).getLast? = some '0' → (trimZeros l).length = 1) ∧
      ∃ k, l = trimZeros l ++ List.replicate k '0' := by
  obtain ⟨c, rest, rfl⟩ := List.exists_cons_of_ne_nil h
  have htrim : trimZeros (c :: rest) = c :: rest.rdropWhile (· == '0') := rfl
  rw [htrim]
  refine ⟨List.cons_ne_nil _ _, fun hlast => ?_, (rest.rtakeWhile (· == '0')).length, ?_⟩
  · by_cases hrest : rest.rdropWhile (· == '0') = []
    · rw [hrest]
      rfl
    · refine absurd ?_ (List.rdropWhile_last_not _ _ hrest)
      rw [List.getLast?_cons_of_ne_nil hrest, List.getLast?_eq_some_getLast hrest] at hlast
      simp [Option.some.inj hlast]
  · rw [← List.eq_replicate_of_mem fun b hb => by simpa using List.mem_rtakeWhile_imp hb,
      List.cons_append, List.rdropWhile_append_rtakeWhile]

/-! ### The buffer -/

/-- The characters of the literal of a finite number. -/
def literalChars (minus point : Char) (x : Single) : List Char :=
  (if x.negative then [minus] else []) ++ (x.fixedDigits literalPlaces).1 ++
    point :: trimZeros (x.fixedDigits literalPlaces).2

theorem trimmedEnd_le (b : List Char) (stop i : Nat) : trimmedEnd b stop i ≤ i := by
  induction i with
  | zero => exact le_rfl
  | succ i ih =>
    rw [trimmedEnd]
    split_ifs
    · exact ih.trans i.le_succ
    · exact le_rfl

/-- What stands behind the end is not looked at. -/
theorem trimmedEnd_append {b : List Char} (c : List Char) (stop : Nat) {i : Nat}
    (h : i ≤ b.length) : trimmedEnd (b ++ c) stop i = trimmedEnd b stop i := by
  induction i with
  | zero => rfl
  | succ i ih => rw [trimmedEnd, trimmedEnd, ih (by omega), List.getElem?_append_left h]

/-- The loop takes off the zeros behind the place where it stops. -/
theorem take_trimmedEnd {front : List Char} {stop : Nat} (h : front.length = stop + 1)
    (rest : List Char) :
    (front ++ rest).take (trimmedEnd (front ++ rest) stop (front ++ rest).length) =
      front ++ rest.rdropWhile (· == '0') := by
  induction rest using List.reverseRecOn with
  | nil =>
    rw [List.append_nil, h, trimmedEnd, if_neg fun hlt => lt_irrefl _ hlt.1, ← h, List.take_length]
    exact (List.append_nil front).symm
  | append_singleton rest c ih =>
    have hlength : (front ++ (rest ++ [c])).length = (front ++ rest).length + 1 := by simp; omega
    have hlast : (front ++ (rest ++ [c]))[(front ++ rest).length]? = some c := by
      rw [← List.append_assoc, List.getElem?_concat_length]
    have hstop : stop < (front ++ rest).length := by
      rw [List.length_append]
      omega
    rw [hlength, trimmedEnd, hlast]
    by_cases hc : c = '0'
    · rw [if_pos ⟨hstop, congrArg some hc⟩, ← List.append_assoc, trimmedEnd_append _ _ le_rfl,
        List.take_append_of_le_length (trimmedEnd_le _ _ _), ih,
        List.rdropWhile_concat_pos _ _ _ (by simpa using hc)]
    · rw [if_neg fun hzero => hc (Option.some.inj hzero.2), ← hlength, List.take_length,
        List.rdropWhile_concat_neg _ _ _ (by simpa using hc)]

/-- The point is found behind the digits in front of it. -/
theorem findIdx?_point {front : List Char} (h : '.' ∉ front) (rest : List Char) :
    (front ++ '.' :: rest).findIdx? (· == '.') = some front.length := by
  rw [List.findIdx?_append, List.findIdx?_eq_none_iff.2 fun c hc => by grind]
  simp [List.findIdx?_cons]

/-- The sign is written over where there is one. -/
theorem set_sign {whole : List Char} (hwhole : whole ≠ []) (hdigits : ∀ c ∈ whole, c.isDigit)
    (negative : Bool) (b rest : List Char) (minus : Char) :
    let l := b ++ ((if negative then ['-'] else []) ++ whole ++ rest)
    (if l[b.length]? = some '-' then l.set b.length minus else l) =
      b ++ ((if negative then [minus] else []) ++ whole ++ rest) := by
  cases negative with
  | true => simp
  | false =>
    obtain ⟨c, others, rfl⟩ := List.exists_cons_of_ne_nil hwhole
    have hc : c ≠ '-' := by
      rintro rfl
      exact absurd (hdigits '-' (by simp)) (by decide)
    simp [hc]

/-- The text of a finite number with eight places. -/
theorem toList_fixed {x : Single} (h : x.isFinite) :
    (x.fixed literalPlaces).toList = (if x.negative then ['-'] else []) ++
      (x.fixedDigits literalPlaces).1 ++ '.' :: (x.fixedDigits literalPlaces).2 := by
  have hfinite := of_decide_eq_true h
  have hnan : x.isNaN = false := decide_eq_false hfinite.not_gt
  have hinfinite : x.isInfinite = false := beq_false_of_ne hfinite.ne
  rw [fixed, hnan, hinfinite]
  exact String.toList_ofList

/-- The literal of a finite number is appended, whatever the buffer holds. -/
theorem appendLiteral_of_isFinite {x : Single} (h : x.isFinite) (b : List Char)
    (minus point : Char) : x.appendLiteral b minus point = b ++ x.literalChars minus point := by
  have hwhole : (x.fixedDigits literalPlaces).1 ≠ [] := Nat.toDigits_ne_nil
  have hdigits : ∀ c ∈ (x.fixedDigits literalPlaces).1, c.isDigit := fun c hc =>
    Nat.isDigit_of_mem_toDigits (by decide) (by decide) hc
  have hfraction : (x.fixedDigits literalPlaces).2 ≠ [] :=
    List.append_ne_nil_of_right_ne_nil _ Nat.toDigits_ne_nil
  rw [literalChars, appendLiteral, if_pos h, toList_fixed h]
  generalize (x.fixedDigits literalPlaces).1 = whole at *
  generalize (x.fixedDigits literalPlaces).2 = fraction at *
  obtain ⟨first, others, rfl⟩ := List.exists_cons_of_ne_nil hfraction
  have hfront : '.' ∉ (if x.negative then ['-'] else []) ++ whole := by
    rw [List.mem_append]
    rintro (hmem | hmem)
    · split at hmem
      · exact absurd hmem (by decide)
      · exact absurd hmem List.not_mem_nil
    · exact absurd (hdigits _ hmem) (by decide)
  have hpoint (l r : List Char) : (b ++ (l ++ '.' :: r)).set (b.length + l.length) point =
      b ++ (l ++ point :: r) := by simp
  simp only [List.drop_left, findIdx?_point hfront, hpoint]
  have hlength : ((if x.negative then ['-'] else []) ++ whole).length =
      ((if x.negative then [minus] else []) ++ whole).length := by
    rw [List.length_append, List.length_append, apply_ite List.length, apply_ite List.length]
    rfl
  rw [set_sign hwhole hdigits, hlength]
  generalize (if x.negative then [minus] else []) ++ whole = front
  have hstop : (b ++ front ++ [point, first]).length = b.length + front.length + 1 + 1 := by
    simp [Nat.add_assoc]
  have htake := take_trimmedEnd hstop others
  simpa [trimZeros, List.rdropWhile] using htake

end Single

/-- Digits with a point are read as they stand. -/
theorem Numeral.read?_digits {negative : Bool} {whole fraction : List Char} (hwhole : whole ≠ [])
    (hdigits : ∀ c ∈ whole ++ fraction, c.isDigit) :
    read? ((if negative then ['-'] else []) ++ whole ++ '.' :: fraction) =
      some ⟨negative, ofDigits (whole ++ fraction), -fraction.length⟩ := by
  rw [List.forall_mem_append] at hdigits
  have hsign : takeSign ((if negative then ['-'] else []) ++ whole ++ '.' :: fraction) =
      (negative, whole ++ '.' :: fraction) := by
    cases negative with
    | true => rfl
    | false =>
      obtain ⟨c, rest, rfl⟩ := List.exists_cons_of_ne_nil hwhole
      have hc := hdigits.1 c (by simp)
      show takeSign (c :: (rest ++ '.' :: fraction)) = _
      unfold takeSign
      split
      case h_1 heq => obtain ⟨rfl, -⟩ := List.cons.inj heq; cases hc
      case h_2 heq => obtain ⟨rfl, -⟩ := List.cons.inj heq; cases hc
      · rfl
  have hpoint : ('.' : Char).isDigit = false := rfl
  unfold read?
  rw [hsign]
  simp only [List.takeWhile_append_of_pos hdigits.1, List.dropWhile_append_of_pos hdigits.1,
    List.takeWhile_cons, List.dropWhile_cons, hpoint]
  simp [hwhole, exponent?, List.takeWhile_eq_self_iff.2 hdigits.2,
    List.dropWhile_eq_nil_iff.2 hdigits.2]

namespace Single

variable {x : Single}

/-- Digits, a point, and one to eight digits, of which the last is not a zero unless it is the only
one. -/
structure IsDecimal (whole fraction : List Char) : Prop where
  whole_ne_nil : whole ≠ []
  fraction_ne_nil : fraction ≠ []
  digits : ∀ c ∈ whole ++ fraction, c.isDigit
  length_le : fraction.length ≤ 8
  trimmed : fraction.getLast? = some '0' → fraction.length = 1

/-- The digits of a literal stand for the number of units of the eighth place. -/
theorem exists_isDecimal (x : Single) :
    ∃ whole fraction, IsDecimal whole fraction ∧
      x.literalChars '-' '.' = (if x.negative then ['-'] else []) ++ whole ++ '.' :: fraction ∧
      10 ^ (8 - fraction.length) * Numeral.ofDigits (whole ++ fraction) =
        x.decimalUnits literalPlaces := by
  generalize hn : x.decimalUnits literalPlaces = n
  obtain ⟨hlength, hdigits, hpadded⟩ := paddedDigits_spec (show 0 < 8 by decide)
    (Nat.mod_lt n (show 0 < 10 ^ 8 by decide))
  have hchars : x.literalChars '-' '.' = (if x.negative then ['-'] else []) ++
      Nat.toDigits 10 (n / 10 ^ 8) ++ '.' :: trimZeros (paddedDigits 8 (n % 10 ^ 8)) := by
    rw [← hn]
    rfl
  generalize paddedDigits 8 (n % 10 ^ 8) = padded at *
  obtain ⟨hfraction, htrimmed, k, hk⟩ := trimZeros_spec
    (List.length_pos_iff.1 (show 0 < padded.length by omega))
  generalize trimZeros padded = fraction at *
  subst hk
  rw [List.length_append, List.length_replicate] at hlength
  refine ⟨_, fraction, ⟨Nat.toDigits_ne_nil, hfraction, ?_, by omega, htrimmed⟩, hchars, ?_⟩
  · rintro c hc
    rcases List.mem_append.1 hc with hc | hc
    · exact Nat.isDigit_of_mem_toDigits (by decide) (by decide) hc
    · exact hdigits c (List.mem_append_left _ hc)
  · have hwhole : Nat.ofDigitChars 10 (fraction ++ List.replicate k '0') (n / 10 ^ 8) = n := by
      rw [Nat.ofDigitChars_eq_ofDigitChars_zero, List.length_append, List.length_replicate, hlength]
      show _ + Numeral.ofDigits _ = n
      rw [hpadded, Nat.div_add_mod]
    show _ * Nat.ofDigitChars 10 (_ ++ _) 0 = n
    rw [Nat.ofDigitChars_append, Nat.ofDigitChars_ten_toDigits, ← Nat.ofDigitChars_replicate_zero,
      ← Nat.ofDigitChars_append, show 8 - fraction.length = k by omega, hwhole]

theorem units_of_large (h : x.isZero ∨ 1 / 8 ≤ |x.value|) : x.units = 0 ∨ 2 ^ 146 ≤ x.units := by
  rcases h with hzero | hlarge
  · left
    simp [units, eq_of_beq hzero]
  · right
    have habs : |x.value| = x.units / 2 ^ 149 := by
      rw [value, cast_unitsPerOne, signedUnits]
      split_ifs <;> simp [abs_div]
    rw [habs, div_le_div_iff₀ (by norm_num) (by positivity)] at hlarge
    have hcast : (2 ^ 149 : ℕ) ≤ x.units * 8 := by exact_mod_cast (one_mul (2 ^ 149 : ℚ) ▸ hlarge)
    omega

/-- The value of a literal is that of the number of units of the eighth place. -/
theorem value_digits {digits places : Nat} (hplaces : places ≤ 8)
    (h : 10 ^ (8 - places) * digits = x.decimalUnits literalPlaces) :
    Numeral.value ⟨x.negative, digits, -places⟩ = x.signedPlaces / 10 ^ 8 := by
  have hpow : (10 : ℚ) ^ 8 = 10 ^ (8 - places) * 10 ^ places := by
    rw [← pow_add, Nat.sub_add_cancel hplaces]
  have hunits : (x.decimalUnits literalPlaces : ℚ) = 10 ^ (8 - places) * digits := by
    exact_mod_cast h.symm
  rw [Numeral.value, zpow_neg, zpow_natCast, hpow, signedPlaces]
  split_ifs
  all_goals
    push_cast
    rw [hunits]
    field_simp

/-- **Literals are faithful.** The literal of a finite number is appended to a buffer as it stands
alone. It is a sign if the number is negative, digits, a point and one to eight digits, with no zero
to spare at its end. It is off by five units of the ninth place at most. If the number is zero or
not less than an eighth, it is the one nearest to its literal. -/
theorem literal_faithful (b : List Char) (x : Single) (h : x.isFinite) :
    ∃ whole fraction, IsDecimal whole fraction ∧
      x.appendLiteral b '-' '.' = b ++ x.literal.toList ∧
      x.literal.toList = (if x.negative then ['-'] else []) ++ whole ++ '.' :: fraction ∧
      ∃ n, Numeral.read? x.literal.toList = some n ∧ n.negative = x.negative ∧
        |n.value - x.value| ≤ 5 / 10 ^ 9 ∧
        (x.isZero ∨ 1 / 8 ≤ |x.value| → x.IsNearest n.value) := by
  obtain ⟨whole, fraction, hdecimal, hchars, hdigits⟩ := x.exists_isDecimal
  have hliteral : x.literal.toList = x.literalChars '-' '.' := by
    rw [literal, String.toList_ofList, appendLiteral_of_isFinite h, List.nil_append]
  have hbuffer : x.appendLiteral b '-' '.' = b ++ x.literal.toList := by
    rw [appendLiteral_of_isFinite h, hliteral]
  have htext := hliteral.trans hchars
  have hread : Numeral.read? x.literal.toList =
      some ⟨x.negative, Numeral.ofDigits (whole ++ fraction), -fraction.length⟩ := by
    rw [htext]
    exact Numeral.read?_digits hdecimal.whole_ne_nil hdecimal.digits
  refine ⟨whole, fraction, hdecimal, hbuffer, htext, _, hread, rfl, ?_,
    fun hlarge y _ hne => .inl ?_⟩
  · rw [value_digits hdecimal.length_le hdigits, abs_sub_value]
    have hgap : (gap x.signedPlaces x : ℚ) ≤ 2 ^ 148 := by exact_mod_cast x.gap_signedPlaces
    rw [div_le_div_iff₀ (by positivity) (by positivity)]
    linarith
  · rw [value_digits hdecimal.length_le hdigits, abs_sub_value, abs_sub_value]
    have hgap : gap x.signedPlaces x < gap x.signedPlaces y := by
      refine gap_lt_gap (units_of_large hlarge) fun heq => hne (by rw [value, value, heq])
    gcongr

/-- The number nearest to a third is read back from its literal, and a buffer that ends in zeros
keeps them in front of it. -/
theorem literal_faithful_third :
    third.isFinite ∧ 1 / 8 ≤ |third.value| ∧
      third.appendLiteral "x=1.00".toList '-' '.' = "x=1.00".toList ++ third.literal.toList ∧
      ∃ n, Numeral.read? third.literal.toList = some n ∧ third.IsNearest n.value := by
  have hfinite : third.isFinite := by decide
  have hlarge : 1 / 8 ≤ |third.value| := by
    rw [value, show third.signedUnits = 11184811 * 2 ^ 124 by decide, cast_unitsPerOne]
    norm_num [abs_of_pos]
  obtain ⟨_, _, -, hbuffer, -, n, hn, -, -, hnearest⟩ :=
    literal_faithful "x=1.00".toList third hfinite
  exact ⟨hfinite, hlarge, hbuffer, n, hn, hnearest (.inr hlarge)⟩

end Single

end ShaderGraph
