import AddressLines.Proofs.Number.Numeral
import AddressLines.Proofs.Number.Shortest
import AddressLines.Tree.Expr
import Mathlib.Data.Int.Log
import Mathlib.Data.Rat.Floor

/-!
# Floats as text read back

The text of a finite float stands for the decimal with the fewest digits that is read as this float. Both forms of
the text say that decimal exactly: a point placed among the digits moves the exponent by as much as it has digits
behind it. So the text is read as the float it was written for, bit for bit. Which of the forms is taken is told by the
exponent of the decimal alone.
-/

namespace AddressLines

open Binary64 Numeral

namespace Decimal

variable {d : Decimal} {ds : List Char}

/-! ## The exponent of the first digit -/

theorem log_value (hd : 0 < d.digits) : Int.log 10 d.value = d.firstExponent := by
  have hwidth := width_pos d.digits
  have hpos : 0 < d.value := by
    rw [value]
    positivity
  have hlow : (10 : ℚ) ^ d.firstExponent ≤ d.value := by
    have hle : (10 : ℚ) ^ (width d.digits - 1) ≤ d.digits := by exact_mod_cast pow_width_le hd
    calc (10 : ℚ) ^ d.firstExponent = 10 ^ (width d.digits - 1) * 10 ^ d.exponent := by
          rw [← zpow_natCast, ← zpow_add₀ (by norm_num), firstExponent]
          congr 1
          omega
      _ ≤ d.value := mul_le_mul_of_nonneg_right hle (by positivity)
  have hhigh : d.value < (10 : ℚ) ^ (d.firstExponent + 1) := by
    have hlt : (d.digits : ℚ) < 10 ^ width d.digits := by exact_mod_cast lt_pow_width d.digits
    calc d.value < 10 ^ width d.digits * 10 ^ d.exponent := mul_lt_mul_of_pos_right hlt (by positivity)
      _ = (10 : ℚ) ^ (d.firstExponent + 1) := by
          rw [← zpow_natCast, ← zpow_add₀ (by norm_num), firstExponent]
          congr 1
          omega
  have hle := (Int.zpow_le_iff_le_log (b := 10) (by decide) hpos).mp (by exact_mod_cast hlow)
  have hlt := (Int.lt_zpow_iff_log_lt (b := 10) (by decide) hpos).mp (by exact_mod_cast hhigh)
  omega

/-! ## Digits with a point -/

/-- Digits with the point after the first `n` of them. -/
theorem plain_placePoint {n : Nat} (hn : 0 < n) (hne : ds ≠ []) (hds : ∀ c ∈ ds, c.isDigit = true) :
    Plain (placePoint n ds) (digitsValue ds * (10 : ℚ) ^ (n - ds.length : Int)) := by
  rw [placePoint]
  split_ifs with hlength
  · have hvalue : (digitsValue ds * (10 : ℚ) ^ (n - ds.length : Int)) =
        (digitsValue (ds ++ List.replicate (n - ds.length) '0') : Nat) := by
      rw [digitsValue_append, digitsValue_zeros, List.length_replicate, ← Nat.cast_sub hlength, zpow_natCast]
      push_cast
      ring
    rw [hvalue]
    refine .whole (by simp [hne]) fun c hc => ?_
    rcases List.mem_append.mp hc with hdigit | hzero
    · exact hds c hdigit
    · rw [List.eq_of_mem_replicate hzero]
      rfl
  · have hvalue : (digitsValue ds * (10 : ℚ) ^ (n - ds.length : Int)) =
        digitsValue (ds.take n ++ ds.drop n) / 10 ^ (ds.drop n).length := by
      have hexponent : (n - ds.length : Int) = -((ds.length - n : Nat) : Int) := by omega
      rw [List.take_append_drop, List.length_drop, hexponent, zpow_neg, zpow_natCast, div_eq_mul_inv]
    rw [hvalue]
    refine .point ?_ (fun c hc => hds c (List.mem_of_mem_take hc)) fun c hc => hds c (List.mem_of_mem_drop hc)
    simp [hne, Nat.ne_of_gt hn]

/-- Behind the point, zeros come before the first digit of a number less than one. -/
theorem plain_zeros (k : Nat) (hds : ∀ c ∈ ds, c.isDigit = true) :
    Plain ('0' :: '.' :: List.replicate k '0' ++ ds) (digitsValue ds * (10 : ℚ) ^ (-(k + ds.length) : Int)) := by
  have hvalue : (digitsValue ds * (10 : ℚ) ^ (-(k + ds.length) : Int)) =
      digitsValue (['0'] ++ (List.replicate k '0' ++ ds)) / 10 ^ (List.replicate k '0' ++ ds).length := by
    have hzeros : ['0'] ++ (List.replicate k '0' ++ ds) = List.replicate (k + 1) '0' ++ ds := rfl
    rw [hzeros, digitsValue_append, digitsValue_zeros, Nat.zero_mul, Nat.zero_add, List.length_append,
      List.length_replicate, zpow_neg, ← Nat.cast_add, zpow_natCast, div_eq_mul_inv]
  rw [hvalue]
  refine @Plain.point ['0'] _ (by simp) (by simp) fun c hc => ?_
  rcases List.mem_append.mp hc with hzero | hdigit
  · rw [List.eq_of_mem_replicate hzero]
    rfl
  · exact hds c hdigit

/-! ## The two forms -/

theorem plain_positional (hne : d.digitList ≠ []) : Plain d.positional d.value := by
  have hds : ∀ c ∈ d.digitList, c.isDigit = true := fun _ => isDigit_of_mem_digitList
  simp only [positional]
  split_ifs with hexponent
  · have hplain := plain_placePoint (Nat.succ_pos d.firstExponent.toNat) hne hds
    have hn : ((d.firstExponent.toNat + 1 : Nat) : Int) = d.firstExponent + 1 := by omega
    rw [hn, ← value_eq] at hplain
    exact hplain
  · have hplain := plain_zeros ((-d.firstExponent).toNat - 1) hds
    have hn : -(((-d.firstExponent).toNat - 1 : Nat) + (d.digitList.length : Int)) =
        d.firstExponent + 1 - d.digitList.length := by omega
    rw [hn, ← value_eq] at hplain
    exact hplain

theorem two_le_length_twoDigits (n : Nat) : 2 ≤ (twoDigits n).length := by
  rw [twoDigits]
  split_ifs with hn
  · have hpos := width_pos n
    rw [width] at hpos
    rw [List.length_cons]
    omega
  · by_contra hshort
    have hlt := (width_le_iff Nat.one_pos).mp (Nat.le_of_lt_succ (Nat.lt_of_not_le hshort))
    omega

theorem digitsValue_twoDigits (n : Nat) : digitsValue (twoDigits n) = n := by
  rw [twoDigits]
  split_ifs
  · have hzero : '0' :: Nat.toDigits 10 n = List.replicate 1 '0' ++ Nat.toDigits 10 n := rfl
    rw [hzero, digitsValue_append, digitsValue_zeros, digitsValue_toDigits, Nat.zero_mul, Nat.zero_add]
  · exact digitsValue_toDigits n

theorem scientific_scientific (hne : d.digitList ≠ []) : Scientific d.scientific d.value d.firstExponent := by
  have hplain := plain_placePoint Nat.one_pos hne fun _ => isDigit_of_mem_digitList
  have hds : ∀ c ∈ twoDigits d.firstExponent.natAbs, c.isDigit = true := fun _ => isDigit_of_mem_twoDigits
  have htwo := two_le_length_twoDigits d.firstExponent.natAbs
  have hexponent := digitsValue_twoDigits d.firstExponent.natAbs
  have hvalue : d.value =
      digitsValue d.digitList * (10 : ℚ) ^ ((1 : Nat) - d.digitList.length : Int) * 10 ^ d.firstExponent := by
    rw [value_eq, mul_assoc, ← zpow_add₀ (by norm_num)]
    congr 2
    push_cast
    ring
  simp only [scientific]
  split_ifs with hneg
  · have hdown := Scientific.down hplain htwo hds
    have hpower : -((d.firstExponent.natAbs : Nat) : Int) = d.firstExponent := by omega
    rw [hexponent, hpower, div_eq_mul_inv, ← zpow_natCast, ← zpow_neg, hpower, ← hvalue] at hdown
    exact hdown
  · have hup := Scientific.up hplain htwo hds
    have hpower : ((d.firstExponent.natAbs : Nat) : Int) = d.firstExponent := by omega
    rw [hexponent, ← zpow_natCast, hpower, ← hvalue] at hup
    exact hup

end Decimal

/-! ## Which form is taken -/

namespace Numeral

variable {cs : List Char} {v : ℚ}

/-- A text that stands for a number: digits with a point while the exponent of the number is from `-4` to `5`, and an
exponent behind them otherwise. -/
structure Form (cs : List Char) (v : ℚ) : Prop where
  plain_iff : Plain cs v ↔ v = 0 ∨ -4 ≤ Int.log 10 v ∧ Int.log 10 v ≤ 5
  scientific : ¬ Plain cs v → Scientific cs v (Int.log 10 v)

theorem Form.exists_float? (h : Form cs v) (negative : Bool) :
    ∃ r, float? ((if negative then ['-'] else []) ++ cs) = some (.ofMagnitude negative r) ∧ IsNearest v r := by
  by_cases hplain : Plain cs v
  · exact hplain.exists_float?_alone negative
  · exact (h.scientific hplain).exists_float? negative

theorem form_zero : Form ['0'] 0 := by
  have hplain : Plain ['0'] (digitsValue ['0']) := .whole (by simp) (by simp)
  have hvalue : digitsValue ['0'] = 0 := by decide
  rw [hvalue, Nat.cast_zero] at hplain
  exact ⟨⟨fun _ => .inl rfl, fun _ => hplain⟩, fun hnot => absurd hplain hnot⟩

end Numeral

namespace Decimal

theorem form_text {d : Decimal} (hne : d.digitList ≠ []) : Form d.text d.value := by
  have hpos : 0 < d.digits := by
    rcases Nat.eq_zero_or_pos d.digits with hzero | hpos
    · exact absurd (by rw [digitList, hzero]; rfl) hne
    · exact hpos
  have hvalue : d.value ≠ 0 := by
    rw [value]
    positivity
  have hpositional : d.isPositional = true ↔ -4 ≤ Int.log 10 d.value ∧ Int.log 10 d.value ≤ 5 := by
    rw [log_value hpos, isPositional, Bool.and_eq_true, decide_eq_true_eq, decide_eq_true_eq]
    omega
  rw [text]
  split_ifs with hform
  · have hplain := plain_positional hne
    exact ⟨⟨fun _ => .inr (hpositional.mp hform), fun _ => hplain⟩, fun hnot => absurd hplain hnot⟩
  · have hscientific := scientific_scientific hne
    rw [← log_value hpos] at hscientific
    refine ⟨⟨fun hplain => absurd hplain hscientific.not_plain, fun hrange => ?_⟩, fun _ => hscientific⟩
    rcases hrange with hzero | hrange
    · exact absurd hzero hvalue
    · exact absurd (hpositional.mpr hrange) hform

end Decimal

/-! ## Floats -/

namespace Binary64

theorem ofMagnitude_magnitude (x : Binary64) : ofMagnitude x.isNegative x.magnitude = x := by
  have hlt := x.bits.toNat_lt
  have hbits : (if x.isNegative then Nat.pow 2 63 + x.magnitude else x.magnitude) = x.bits.toNat := by
    simp only [isNegative, magnitude, decide_eq_true_eq, Nat.pow_eq, Nat.reducePow] at hlt ⊢
    split_ifs <;> omega
  rw [ofMagnitude, hbits, UInt64.ofNat_toNat]

theorem toList_text {x : Binary64} (hx : x.isFinite = true) :
    x.text.toList = (if x.isNegative then ['-'] else []) ++
      (if x.magnitude = 0 then ['0'] else (Decimal.shortest x.magnitude).text) := by
  have hlt : x.magnitude < infinite := of_decide_eq_true hx
  have hnan : ¬ x.isNaN = true := by
    rw [isNaN, decide_eq_true_eq]
    omega
  have hinfinite : ¬ x.isInfinite = true := by
    rw [isInfinite, decide_eq_true_eq]
    omega
  unfold text
  rw [if_neg hnan, if_neg hinfinite, String.toList_ofList]
  split
  · rfl
  · rfl

/-- What is written behind the sign stands for the shortest decimal that is read as the float. -/
theorem exists_form {x : Binary64} (hx : x.isFinite = true) :
    ∃ body v, x.text.toList = (if x.isNegative then ['-'] else []) ++ body ∧ Form body v ∧ IsNearest v x.magnitude ∧
      (x.magnitude = 0 → v = 0) ∧ (x.magnitude ≠ 0 → ∃ d, Decimal.IsShortest x.magnitude d ∧ v = d.value) := by
  have htext := toList_text hx
  by_cases hzero : x.magnitude = 0
  · rw [if_pos hzero] at htext
    refine ⟨['0'], 0, htext, form_zero, ?_, fun _ => rfl, fun hne => absurd hzero hne⟩
    rw [hzero]
    exact isNearest_zero
  · rw [if_neg hzero] at htext
    have hshortest := Decimal.isShortest_shortest (Nat.pos_of_ne_zero hzero) (of_decide_eq_true hx)
    have hpos := Decimal.length_digitList_pos (Nat.pos_of_ne_zero hzero) hshortest.reads
    refine ⟨_, _, htext, Decimal.form_text (List.ne_nil_of_length_pos hpos), hshortest.reads, fun h => absurd h hzero,
      fun _ => ⟨_, hshortest, rfl⟩⟩

theorem float?_text {x : Binary64} (hx : x.isNaN = false) : float? x.text.toList = some x := by
  have hle : x.magnitude ≤ infinite := by
    rw [isNaN, decide_eq_false_iff_not] at hx
    omega
  rcases Nat.lt_or_eq_of_le hle with hfinite | hinfinite
  · obtain ⟨body, v, htext, hform, hnearest, -⟩ := exists_form (decide_eq_true hfinite)
    obtain ⟨r, hread, hr⟩ := hform.exists_float? x.isNegative
    rw [htext, hread, hr.eq hnearest, ofMagnitude_magnitude]
  · have hx' : x = ofMagnitude x.isNegative infinite := by rw [← hinfinite, ofMagnitude_magnitude]
    rw [hx']
    cases x.isNegative with
    | false => decide
    | true => decide

/-- Only floats that are not a number have the text of another float. -/
theorem text_eq_iff {x y : Binary64} : x.text = y.text ↔ x = y ∨ x.isNaN = true ∧ y.isNaN = true := by
  have hnan : ∀ {x : Binary64}, x.isNaN = true → x.text = "NaN" := fun hx => if_pos hx
  -- What is not a number is read as one such float, so its text is that of no number.
  have hmixed : ∀ {x y : Binary64}, x.isNaN = false → y.isNaN = true → x.text ≠ y.text := by
    intro x y hx hy h
    have hword : float? "NaN".toList = some (notANumber false) := by decide
    have hread := float?_text hx
    rw [h, hnan hy, hword] at hread
    rw [← Option.some.inj hread] at hx
    exact absurd hx (by decide)
  constructor
  · intro h
    cases hx : x.isNaN with
    | false =>
      cases hy : y.isNaN with
      | false => exact .inl (Option.some.inj (by rw [← float?_text hx, h, float?_text hy]))
      | true => exact absurd h (hmixed hx hy)
    | true =>
      cases hy : y.isNaN with
      | false => exact absurd h.symm (hmixed hy hx)
      | true => exact .inr ⟨rfl, rfl⟩
  · rintro (rfl | ⟨hx, hy⟩)
    · rfl
    · rw [hnan hx, hnan hy]

/-- The text of a finite float is read as that float, the sign of zero included. It stands for the shortest decimal
that is read so, written positionally while its exponent is from `-4` to `5` and with an exponent otherwise. -/
theorem text_reads_back {x : Binary64} (hx : x.isFinite = true) :
    float? (Literal.float x).value.toList = some x ∧
      ∃ body v, (Literal.float x).value.toList = (if x.isNegative then ['-'] else []) ++ body ∧ Form body v ∧
        IsNearest v x.magnitude ∧ (x.magnitude = 0 → v = 0) ∧
        (x.magnitude ≠ 0 → ∃ d, Decimal.IsShortest x.magnitude d ∧ v = d.value) := by
  obtain ⟨body, v, htext, hform, hnearest, hrest⟩ := exists_form hx
  refine ⟨?_, body, v, htext, hform, hnearest, hrest⟩
  obtain ⟨r, hread, hr⟩ := hform.exists_float? x.isNegative
  rw [Literal.value, htext, hread, hr.eq hnearest, ofMagnitude_magnitude]

/-- The least float below zero is written with an exponent, and one digit of it is enough. -/
theorem text_reads_back_least_negative :
    (⟨0x8000000000000001⟩ : Binary64).isFinite = true ∧
      (Literal.float ⟨0x8000000000000001⟩).value = "-5e-324" ∧
      float? (Literal.float ⟨0x8000000000000001⟩).value.toList = some ⟨0x8000000000000001⟩ :=
  ⟨by decide, by decide +kernel, (text_reads_back (by decide)).1⟩

end Binary64

end AddressLines
