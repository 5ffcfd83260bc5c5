import AddressLines.Number.Numeral
import AddressLines.Proofs.Number.Marks
import AddressLines.Proofs.Number.Nearest
import Mathlib.Algebra.Order.Field.Power
import Mathlib.Data.Nat.Log

/-!
# Decimals and the floats they are read as

A decimal is read as the float nearest to its value, whatever its exponent (`isNearest_nearestDecimal`). What counts of
its digits are those without the zeros at the end: the value is told by them and by the exponent of the first one.
-/

namespace AddressLines

open Binary64 Numeral

/-! ## Reading a decimal -/

theorem Binary64.value_zero : Binary64.value 0 = 0 := by
  rw [Binary64.value, units_of_lt (by decide), Nat.cast_zero, zero_div]

/-- Zero is read as zero, and so is all that is less than half the least float. -/
theorem Binary64.within_zero {v : ℚ} (h : v < middle 0) : Within v 0 :=
  ⟨Nat.zero_le _, fun hpos => absurd hpos (lt_irrefl 0), fun _ => .inl h⟩

theorem Binary64.isNearest_zero : IsNearest 0 0 :=
  isNearest_iff_within.mpr (within_zero (value_zero ▸ value_lt_middle 0))

/-- Half the least float is more than `10 ^ -401`. -/
theorem Binary64.ten_zpow_le_middle : (10 : ℚ) ^ (-401 : Int) ≤ middle 0 := by
  have hone : twiceMiddle 0 = 1 := by decide
  have hscale : 2 * scale ≤ 10 ^ 401 := by decide +kernel
  have hpos : (0 : ℚ) < 2 * scale := mul_pos two_pos (Nat.cast_pos.mpr scale_pos)
  rw [middle_eq, hone, Nat.cast_one, zpow_neg, ← one_div]
  apply one_div_le_one_div_of_le hpos
  exact_mod_cast hscale

/-- From `10 ^ 401` on every number is read as infinite. -/
theorem Binary64.within_infinite {v : ℚ} (h : (10 : ℚ) ^ 401 ≤ v) : Within v infinite := by
  refine ⟨le_rfl, fun hpos => .inl ?_, fun hlt => absurd hlt (lt_irrefl _)⟩
  have hmiddle := middle_lt_value (infinite - 1)
  rw [Nat.sub_add_cancel hpos] at hmiddle
  refine hmiddle.trans_le (le_trans ?_ h)
  have hunits : units infinite ≤ 10 ^ 401 * scale := by decide +kernel
  rw [Binary64.value, div_le_iff₀ (Nat.cast_pos.mpr scale_pos)]
  exact_mod_cast hunits

/-- A number of `n` bits has at most `n / 3 + 1` digits. -/
theorem lt_ten_pow_log2 (n : Nat) : n < 10 ^ (n.log2 / 3 + 1) := by
  calc n < 2 ^ (n.log2 + 1) := Nat.lt_log2_self
    _ ≤ 2 ^ (3 * (n.log2 / 3 + 1)) := Nat.pow_le_pow_right (by decide) (by omega)
    _ = 8 ^ (n.log2 / 3 + 1) := Nat.pow_mul 2 3 _
    _ ≤ 10 ^ (n.log2 / 3 + 1) := Nat.pow_le_pow_left (by decide) _

theorem Binary64.isNearest_nearestDecimal (digits : Nat) (e : Int) :
    IsNearest (digits * (10 : ℚ) ^ e) (nearestDecimal digits e) := by
  rw [isNearest_iff_within, nearestDecimal]
  split_ifs with hzero hlarge hsmall hpos
  · rw [hzero, Nat.cast_zero, zero_mul]
    exact isNearest_iff_within.mp isNearest_zero
  · refine within_infinite ?_
    have hdigits : (1 : ℚ) ≤ digits := Nat.one_le_cast.mpr (Nat.pos_of_ne_zero hzero)
    have hpow : (10 : ℚ) ^ (401 : Int) ≤ 10 ^ e := zpow_le_zpow_right₀ (by norm_num) (by omega)
    calc (10 : ℚ) ^ 401 = 10 ^ (401 : Int) := (zpow_natCast 10 401).symm
      _ ≤ 10 ^ e := hpow
      _ ≤ digits * 10 ^ e := le_mul_of_one_le_left (by positivity) hdigits
  · refine within_zero ?_
    have hdigits : (digits : ℚ) < 10 ^ (digits.log2 / 3 + 1) := by exact_mod_cast lt_ten_pow_log2 digits
    generalize digits.log2 / 3 + 1 = k at hsmall hdigits
    calc digits * (10 : ℚ) ^ e < 10 ^ k * 10 ^ e := mul_lt_mul_of_pos_right hdigits (by positivity)
      _ = 10 ^ ((k : Int) + e) := by rw [zpow_add₀ (by norm_num), zpow_natCast]
      _ ≤ 10 ^ (-401 : Int) := zpow_le_zpow_right₀ (by norm_num) (by omega)
      _ ≤ middle 0 := ten_zpow_le_middle
  · obtain ⟨k, rfl⟩ := Int.eq_ofNat_of_zero_le hpos
    have hvalue : (digits * (10 : ℚ) ^ (k : Int)) = ((digits * 10 ^ k : Nat) : ℚ) / (1 : Nat) := by
      rw [zpow_natCast]
      push_cast
      rw [div_one]
    rw [hvalue]
    exact within_nearest _ Nat.one_pos
  · obtain ⟨k, rfl⟩ : ∃ k : Nat, e = -k := ⟨(-e).toNat, by omega⟩
    have hvalue : (digits * (10 : ℚ) ^ (-k : Int)) = (digits : ℚ) / (10 ^ k : Nat) := by
      rw [zpow_neg, zpow_natCast]
      push_cast
      rw [div_eq_mul_inv]
    rw [hvalue, neg_neg]
    exact within_nearest _ (by positivity)

namespace Decimal

def value (d : Decimal) : ℚ :=
  d.digits * (10 : ℚ) ^ d.exponent

theorem readsAs_iff {r : Nat} {d : Decimal} : readsAs r d = true ↔ IsNearest d.value r := by
  have hnearest := isNearest_nearestDecimal d.digits d.exponent
  rw [readsAs, decide_eq_true_eq]
  constructor
  · rintro rfl
    exact hnearest
  · intro h
    exact hnearest.eq h

/-! ## Digits that count -/

theorem width_le_iff {n k : Nat} (hk : 0 < k) : width n ≤ k ↔ n < 10 ^ k :=
  Nat.length_toDigits_le_iff (by decide) hk

theorem width_pos (n : Nat) : 0 < width n :=
  Nat.length_toDigits_pos

theorem lt_pow_width (n : Nat) : n < 10 ^ width n :=
  (width_le_iff (width_pos n)).mp le_rfl

/-- The first digit of a number is not zero. -/
theorem pow_width_le {n : Nat} (hn : 0 < n) : 10 ^ (width n - 1) ≤ n := by
  by_contra hlt
  have hpos := width_pos n
  rcases Nat.eq_zero_or_pos (width n - 1) with hone | hmore
  · rw [hone, Nat.pow_zero] at hlt
    omega
  · have hle := (width_le_iff hmore).mpr (Nat.lt_of_not_le hlt)
    omega

theorem digitsValue_eq (ds : List Char) : digitsValue ds = Nat.ofDigitChars 10 ds 0 :=
  Nat.ofDigitChars_eq_foldl.symm

theorem digitsValue_append (cs ds : List Char) :
    digitsValue (cs ++ ds) = digitsValue cs * 10 ^ ds.length + digitsValue ds := by
  rw [digitsValue_eq, digitsValue_eq, digitsValue_eq, Nat.ofDigitChars_append, Nat.ofDigitChars_eq_ofDigitChars_zero,
    Nat.mul_comm]

theorem digitsValue_zeros (k : Nat) : digitsValue (List.replicate k '0') = 0 := by
  rw [digitsValue_eq, Nat.ofDigitChars_replicate_zero, Nat.mul_zero]

@[simp] theorem digitsValue_toDigits (n : Nat) : digitsValue (Nat.toDigits 10 n) = n := by
  rw [digitsValue_eq, Nat.ofDigitChars_ten_toDigits]

/-- Zeros at the end of a list of digits. -/
theorem stripped_append (ds : List Char) :
    ∃ k, ds = (ds.reverse.dropWhile (· == '0')).reverse ++ List.replicate k '0' := by
  refine ⟨(ds.reverse.takeWhile (· == '0')).length, ?_⟩
  have hzeros : ds.reverse.takeWhile (· == '0') = List.replicate (ds.reverse.takeWhile (· == '0')).length '0' := by
    rw [List.eq_replicate_iff]
    refine ⟨rfl, fun c hc => ?_⟩
    have hzero := List.all_eq_true.mp List.all_takeWhile c hc
    simpa using hzero
  have hsplit := congrArg List.reverse (List.takeWhile_append_dropWhile (p := (· == '0')) (l := ds.reverse))
  rw [List.reverse_append, List.reverse_reverse] at hsplit
  nth_rewrite 1 [← hsplit]
  rw [hzeros, List.reverse_replicate, List.length_replicate]

theorem toDigits_mul_pow {n : Nat} (hn : 0 < n) (k : Nat) :
    Nat.toDigits 10 (n * 10 ^ k) = Nat.toDigits 10 n ++ List.replicate k '0' := by
  induction k with
  | zero => simp
  | succ k ih =>
    have hpos : 0 < n * 10 ^ k := by positivity
    rw [Nat.pow_succ, ← Nat.mul_assoc, Nat.toDigits_of_base_le (by decide) (by omega),
      Nat.mul_div_cancel _ (by decide), Nat.mul_mod_left, ih, List.replicate_succ', List.append_assoc]
    rfl

theorem digitsValue_lt {ds : List Char} (h : ∀ c ∈ ds, c.isDigit = true) : digitsValue ds < 10 ^ ds.length := by
  induction ds using List.reverseRecOn with
  | nil => decide
  | append_singleton ds c ih =>
    rw [List.forall_mem_append] at h
    have hds := ih h.1
    have hc : digitsValue [c] < 10 := by
      have hdigit := h.2 c (List.mem_singleton_self c)
      simp only [Char.isDigit, Bool.and_eq_true, decide_eq_true_eq, UInt32.le_iff_toNat_le] at hdigit
      have hle : c.toNat ≤ 57 := hdigit.2
      simp only [digitsValue, List.foldl_cons, List.foldl_nil, Char.reduceToNat]
      omega
    rw [digitsValue_append, List.length_append, List.length_singleton, Nat.pow_one, Nat.pow_succ]
    omega

variable {d : Decimal}

theorem exists_toDigits_eq (d : Decimal) :
    ∃ k, Nat.toDigits 10 d.digits = d.digitList ++ List.replicate k '0' :=
  stripped_append _

/-- The value is told by the digits that count and the exponent of the first of them. -/
theorem value_eq (d : Decimal) :
    d.value = digitsValue d.digitList * (10 : ℚ) ^ (d.firstExponent + 1 - d.digitList.length) := by
  obtain ⟨k, hk⟩ := d.exists_toDigits_eq
  have hdigits : d.digits = digitsValue d.digitList * 10 ^ k := by
    rw [← digitsValue_toDigits d.digits, hk, digitsValue_append, digitsValue_zeros, List.length_replicate,
      Nat.add_zero]
  have hwidth : width d.digits = d.digitList.length + k := by
    rw [width, hk, List.length_append, List.length_replicate]
  have hexponent : d.firstExponent + 1 - d.digitList.length = k + d.exponent := by
    rw [firstExponent, hwidth]
    push_cast
    ring
  rw [value, hexponent, zpow_add₀ (by norm_num), zpow_natCast, ← mul_assoc]
  exact_mod_cast congrArg (fun n : Nat => (n : ℚ) * (10 : ℚ) ^ d.exponent) hdigits

/-- The decimal with just the digits that count. -/
theorem exists_value_eq (d : Decimal) : ∃ c : Decimal, c.value = d.value ∧ c.digits < 10 ^ d.digitList.length :=
  ⟨⟨digitsValue d.digitList, d.firstExponent + 1 - d.digitList.length⟩, d.value_eq.symm,
    digitsValue_lt fun _ => isDigit_of_mem_digitList⟩

/-- No more digits count than are needed in some unit. -/
theorem length_digitList_le {c n k : Nat} (h : d.digits = c * 10 ^ k) (hc : c < 10 ^ n) (hn : 0 < n) :
    d.digitList.length ≤ n := by
  rcases Nat.eq_zero_or_pos c with rfl | hpos
  · have hnil : d.digitList = [] := by
      rw [digitList, h, Nat.zero_mul]
      rfl
    rw [hnil]
    exact Nat.zero_le n
  · have hzeros : ∀ x ∈ List.replicate k '0', (x == '0') = true := by
      intro x hx
      rw [List.eq_of_mem_replicate hx]
      rfl
    have hlist : d.digitList = ((Nat.toDigits 10 c).reverse.dropWhile (· == '0')).reverse := by
      rw [digitList, h, toDigits_mul_pow hpos, List.reverse_append, List.reverse_replicate,
        List.dropWhile_append_of_pos hzeros]
    have hdrop := (List.dropWhile_suffix (· == '0') (l := (Nat.toDigits 10 c).reverse)).length_le
    have hwidth : (Nat.toDigits 10 c).length ≤ n := (width_le_iff hn).mpr hc
    rw [hlist, List.length_reverse]
    rw [List.length_reverse] at hdrop
    omega

end Decimal

end AddressLines
