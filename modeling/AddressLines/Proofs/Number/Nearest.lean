import AddressLines.Number.Binary64
import Mathlib.Algebra.Order.Field.Basic
import Mathlib.Algebra.Order.Ring.Abs
import Mathlib.Data.Rat.Cast.Order
import Mathlib.Order.Monotone.Basic
import Mathlib.Tactic.Linarith
import Mathlib.Tactic.NormNum
import Mathlib.Tactic.Positivity
import Mathlib.Tactic.Ring

/-!
# The float nearest to a number

Floats of one sign are numbered by their magnitude bits, and their values grow with the number (`value_strictMono`). A
number is rounded to the float that is nearest to it, and from the middle between two floats to the one with an even
number of bits (`IsNearest`). Infinity takes part in this as the float that would come next, `2 ^ 1024`, so a number
is rounded to it from the middle behind the last finite float on.

To be nearest is to lie between the middles to the two neighbours (`isNearest_iff_within`). So the numbers that are
rounded to one float have no gaps among them, and no number is rounded to two.
-/

namespace AddressLines.Binary64

/-! ## Values -/

theorem units_of_lt {r : Nat} (h : r < 2 ^ 52) : units r = r :=
  if_pos h

theorem units_of_le {r : Nat} (h : 2 ^ 52 ≤ r) : units r = (2 ^ 52 + r % 2 ^ 52) * 2 ^ (r / 2 ^ 52 - 1) :=
  if_neg (Nat.not_lt.mpr h)

/-- A significand of 53 bits in its unit, or fewer bits in the least unit. One more than the greatest significand is
the least one in the next unit. -/
theorem units_significand {s m : Nat} (hlow : s = 0 ∨ 2 ^ 52 ≤ m) (hhigh : m ≤ 2 ^ 53) :
    units (s * 2 ^ 52 + m) = m * 2 ^ s := by
  rcases Nat.lt_or_ge m (2 ^ 52) with hm | hm
  · obtain rfl : s = 0 := hlow.resolve_right (Nat.not_le.mpr hm)
    rw [Nat.zero_mul, Nat.zero_add, units_of_lt hm, Nat.pow_zero, Nat.mul_one]
  · rw [units_of_le (by omega)]
    rcases Nat.eq_or_lt_of_le hhigh with rfl | hlt
    · have hdiv : (s * 2 ^ 52 + 2 ^ 53) / 2 ^ 52 = s + 2 := by omega
      have hmod : (s * 2 ^ 52 + 2 ^ 53) % 2 ^ 52 = 0 := by omega
      rw [hdiv, hmod, Nat.add_zero, Nat.add_sub_assoc (by decide), Nat.pow_succ, Nat.pow_succ 2 52]
      ring
    · have hdiv : (s * 2 ^ 52 + m) / 2 ^ 52 = s + 1 := by omega
      have hmod : 2 ^ 52 + (s * 2 ^ 52 + m) % 2 ^ 52 = m := by omega
      rw [hdiv, hmod, Nat.add_sub_cancel]

/-- The next float is one unit of the last place away. -/
theorem units_succ (r : Nat) : units (r + 1) = units r + 2 ^ (r / 2 ^ 52 - 1) := by
  obtain ⟨s, m, rfl, hlow, hhigh, hunit⟩ : ∃ s m, r = s * 2 ^ 52 + m ∧ (s = 0 ∨ 2 ^ 52 ≤ m) ∧ m < 2 ^ 53 ∧
      r / 2 ^ 52 - 1 = s := by
    rcases Nat.lt_or_ge r (2 ^ 52) with hr | hr
    · exact ⟨0, r, by omega, .inl rfl, by omega, by omega⟩
    · exact ⟨r / 2 ^ 52 - 1, 2 ^ 52 + r % 2 ^ 52, by omega, .inr (by omega), by omega, rfl⟩
  rw [hunit, Nat.add_assoc, units_significand (hlow.imp_right (by omega)) hhigh,
    units_significand hlow (Nat.le_of_lt hhigh), Nat.succ_mul]

theorem units_strictMono : StrictMono units := by
  refine strictMono_nat_of_lt_succ fun r => ?_
  rw [units_succ]
  exact Nat.lt_add_of_pos_right (Nat.two_pow_pos _)

/-- A float is less than `2 ^ 52` times what its two neighbours are apart. -/
theorem units_lt_spacing (r : Nat) : 2 * units (r + 1) + 2 ^ 53 * units r < 2 ^ 53 * units (r + 2) := by
  have hthis := units_succ r
  have hnext : units (r + 2) = units (r + 1) + 2 ^ ((r + 1) / 2 ^ 52 - 1) := units_succ (r + 1)
  have hpos : 0 < 2 ^ (r / 2 ^ 52 - 1) := Nat.two_pow_pos _
  by_cases hpower : (r + 1) % 2 ^ 52 = 0
  · -- a power of two: the gap below is narrower, but the significand is the least one
    have hunits := units_of_le (r := r + 1) (by omega)
    rw [hpower] at hunits
    omega
  · have hsame : (r + 1) / 2 ^ 52 = r / 2 ^ 52 := by omega
    have hbound : units (r + 1) < 2 ^ 53 * 2 ^ ((r + 1) / 2 ^ 52 - 1) := by
      rcases Nat.lt_or_ge (r + 1) (2 ^ 52) with hsmall | hlarge
      · rw [units_of_lt hsmall]
        exact Nat.lt_of_lt_of_le (by omega) (Nat.le_mul_of_pos_right _ (Nat.two_pow_pos _))
      · rw [units_of_le hlarge]
        exact Nat.mul_lt_mul_of_pos_right (by omega) (Nat.two_pow_pos _)
    rw [hsame] at hnext hbound
    omega

/-! ## Rounding a quotient -/

/-- The rounded quotient is at most a half away, and just a half only if it is even. -/
theorem roundHalfEven_bounds (num : Nat) {den : Nat} (hden : 0 < den) :
    (2 * (roundHalfEven num den * den) < 2 * num + den ∨
      2 * (roundHalfEven num den * den) = 2 * num + den ∧ roundHalfEven num den % 2 = 0) ∧
    (2 * num < 2 * (roundHalfEven num den * den) + den ∨
      2 * num = 2 * (roundHalfEven num den * den) + den ∧ roundHalfEven num den % 2 = 0) := by
  have hdiv : num / den * den + num % den = num := Nat.div_add_mod' num den
  have hmod : num % den < den := Nat.mod_lt num hden
  simp only [roundHalfEven]
  split_ifs with hdown
  · generalize num / den * den = low at hdiv
    omega
  · rw [Nat.succ_mul (num / den) den]
    generalize num / den * den = low at hdiv
    omega

theorem roundHalfEven_le {num den b : Nat} (hden : 0 < den) (h : num < b * den) : roundHalfEven num den ≤ b := by
  have hdiv : num / den < b := (Nat.div_lt_iff_lt_mul hden).mpr h
  simp only [roundHalfEven]
  split_ifs <;> omega

theorem le_roundHalfEven {num den b : Nat} (hden : 0 < den) (h : b * den ≤ num) : b ≤ roundHalfEven num den := by
  have hdiv : b ≤ num / den := (Nat.le_div_iff_mul_le hden).mpr h
  simp only [roundHalfEven]
  split_ifs <;> omega

/-! ## The nearest float, in whole units -/

/-- Twice the middle between a float and the next one. -/
def twiceMiddle (r : Nat) : Nat :=
  units r + units (r + 1)

/-- The number `num / den` of units lies between the middles to the neighbours of a float, the middles included if its
bits are even. -/
structure Between (num den r : Nat) : Prop where
  lower : 0 < r → twiceMiddle (r - 1) * den < 2 * num ∨ twiceMiddle (r - 1) * den = 2 * num ∧ r % 2 = 0
  upper : 2 * num < twiceMiddle r * den ∨ 2 * num = twiceMiddle r * den ∧ r % 2 = 0

/-- The unit is chosen so that the significand has 53 bits, or is the least one. -/
theorem significand_bounds {num den s : Nat} (hden : 0 < den) (hs : s = (num / den).log2 - 52) :
    (s = 0 ∨ 2 ^ 52 * (den * 2 ^ s) ≤ num) ∧ num < 2 ^ 53 * (den * 2 ^ s) := by
  constructor
  · refine or_iff_not_imp_left.mpr fun hne => ?_
    have hlog : (num / den).log2 = 52 + s := by omega
    have hnum : num / den ≠ 0 := by
      intro hzero
      rw [hzero, Nat.log2_zero] at hlog
      omega
    have hself := Nat.log2_self_le hnum
    rw [hlog] at hself
    calc 2 ^ 52 * (den * 2 ^ s) = 2 ^ (52 + s) * den := by ring
      _ ≤ num / den * den := Nat.mul_le_mul_right den hself
      _ ≤ num := Nat.div_mul_le_self num den
  · have hself : num / den < 2 ^ ((num / den).log2 + 1) := Nat.lt_log2_self
    have hpow : 2 ^ ((num / den).log2 + 1) ≤ 2 ^ (53 + s) := Nat.pow_le_pow_right (by decide) (by omega)
    calc num < (num / den + 1) * den := Nat.lt_mul_of_div_lt (Nat.lt_succ_self _) hden
      _ ≤ 2 ^ (53 + s) * den := Nat.mul_le_mul_right den (hself.trans_le hpow)
      _ = 2 ^ 53 * (den * 2 ^ s) := by ring

/-- Were there no largest exponent, `nearest` would find these bits. -/
theorem between_significand {num den s : Nat} (hden : 0 < den) (hs : s = (num / den).log2 - 52) :
    Between num den (s * 2 ^ 52 + roundHalfEven num (den * 2 ^ s)) := by
  obtain ⟨hlow, hhigh⟩ := significand_bounds hden hs
  have hunit : 0 < den * 2 ^ s := Nat.mul_pos hden (Nat.two_pow_pos s)
  have hmax := roundHalfEven_le hunit hhigh
  have hmin := hlow.imp_right (le_roundHalfEven hunit)
  obtain ⟨hround, hround'⟩ := roundHalfEven_bounds num hunit
  generalize roundHalfEven num (den * 2 ^ s) = m at hround hround' hmax hmin ⊢
  have hunits := units_significand hmin hmax
  have hparity : (s * 2 ^ 52 + m) % 2 = m % 2 := by omega
  rw [← hparity] at hround hround'
  constructor
  · intro hpos
    by_cases hleast : s = 0 ∨ 2 ^ 52 < m
    · -- the float below has the significand before this one
      obtain ⟨k, rfl⟩ : ∃ k, m = k + 1 := Nat.exists_eq_succ_of_ne_zero (by omega)
      have hbelow : units (s * 2 ^ 52 + k) = k * 2 ^ s := units_significand (hleast.imp_right (by omega)) (by omega)
      have hmiddle : twiceMiddle (s * 2 ^ 52 + k) * den = 2 * (k * (den * 2 ^ s)) + den * 2 ^ s := by
        rw [twiceMiddle, Nat.add_assoc, hbelow, hunits]
        ring
      have hnext : (k + 1) * (den * 2 ^ s) = k * (den * 2 ^ s) + den * 2 ^ s := Nat.succ_mul k _
      rw [show s * 2 ^ 52 + (k + 1) - 1 = s * 2 ^ 52 + k by omega, hmiddle]
      rw [hnext] at hround
      omega
    · -- the least significand: the number is not below it, and the float below is nearer still
      have hnum := hlow.resolve_left fun h => hleast (.inl h)
      have hm : m = 2 ^ 52 := by omega
      have hbelow : units (s * 2 ^ 52 + m - 1) < units (s * 2 ^ 52 + m) := units_strictMono (by omega)
      left
      calc twiceMiddle (s * 2 ^ 52 + m - 1) * den < (2 * (m * 2 ^ s)) * den := by
            refine Nat.mul_lt_mul_of_pos_right ?_ hden
            rw [twiceMiddle, Nat.sub_add_cancel hpos, ← hunits]
            omega
        _ = 2 * (m * (den * 2 ^ s)) := by ring
        _ ≤ 2 * num := Nat.mul_le_mul_left 2 (hm ▸ hnum)
  · have hgap : 2 ^ s ≤ 2 ^ ((s * 2 ^ 52 + m) / 2 ^ 52 - 1) := Nat.pow_le_pow_right (by decide) (by omega)
    have hmiddle : 2 * (m * (den * 2 ^ s)) + den * 2 ^ s ≤ twiceMiddle (s * 2 ^ 52 + m) * den := by
      calc 2 * (m * (den * 2 ^ s)) + den * 2 ^ s = (m * 2 ^ s + (m * 2 ^ s + 2 ^ s)) * den := by ring
        _ ≤ twiceMiddle (s * 2 ^ 52 + m) * den := by
          rw [twiceMiddle, units_succ, hunits]
          exact Nat.mul_le_mul_right den (by omega)
    omega

theorem twiceMiddle_strictMono : StrictMono twiceMiddle := by
  intro r r' h
  exact Nat.add_lt_add (units_strictMono h) (units_strictMono (Nat.succ_lt_succ h))

/-! ## The nearest float -/

/-- The number of units in one, sealed so that it is not written out. -/
@[irreducible] def scale : Nat :=
  Nat.pow 2 1074

theorem scale_pos : 0 < scale := by
  decide +kernel

/-- The value of magnitude bits. -/
def value (r : Nat) : ℚ :=
  units r / scale

/-- The float is nearest to a number, and if another one is as near it has even bits. -/
def IsNearest (v : ℚ) (r : Nat) : Prop :=
  r ≤ infinite ∧ ∀ r' ≤ infinite, r' ≠ r →
    |v - value r| < |v - value r'| ∨ |v - value r| = |v - value r'| ∧ r % 2 = 0

/-- The middle between a float and the next one. -/
def middle (r : Nat) : ℚ :=
  (value r + value (r + 1)) / 2

/-- The number lies between the middles to the neighbours of a float, the middles included if its bits are even. -/
structure Within (v : ℚ) (r : Nat) : Prop where
  finite : r ≤ infinite
  lower : 0 < r → middle (r - 1) < v ∨ middle (r - 1) = v ∧ r % 2 = 0
  upper : r < infinite → v < middle r ∨ v = middle r ∧ r % 2 = 0

variable {u v w : ℚ} {r r' : Nat}

theorem value_strictMono : StrictMono value := by
  intro r r' h
  have hunits : (units r : ℚ) < units r' := Nat.cast_lt.mpr (units_strictMono h)
  exact div_lt_div_of_pos_right hunits (Nat.cast_pos.mpr scale_pos)

theorem value_lt_spacing (r : Nat) : value (r + 1) < 2 ^ 52 * (value (r + 2) - value r) := by
  have hunits : (2 * units (r + 1) + 2 ^ 53 * units r : ℚ) < 2 ^ 53 * units (r + 2) := by
    exact_mod_cast units_lt_spacing r
  have hpos : (0 : ℚ) < scale := Nat.cast_pos.mpr scale_pos
  rw [value, value, value, ← sub_div, ← mul_div_assoc]
  apply div_lt_div_of_pos_right _ hpos
  linarith

theorem middle_strictMono : StrictMono middle := by
  intro r r' h
  have hthis := value_strictMono h
  have hnext := value_strictMono (Nat.succ_lt_succ h)
  rw [middle, middle]
  linarith

theorem value_lt_middle (r : Nat) : value r < middle r := by
  have h := value_strictMono (Nat.lt_succ_self r)
  rw [middle]
  linarith

theorem middle_lt_value (r : Nat) : middle r < value (r + 1) := by
  have h := value_strictMono (Nat.lt_succ_self r)
  rw [middle]
  linarith

/-- Of two numbers the greater one is nearer from their middle on. -/
theorem abs_sub_lt_iff_middle {a b : ℚ} (h : a < b) :
    (|v - b| < |v - a| ↔ (a + b) / 2 < v) ∧ (|v - a| < |v - b| ↔ v < (a + b) / 2) ∧
      (|v - a| = |v - b| ↔ (a + b) / 2 = v) := by
  have hdiff : (v - a) ^ 2 - (v - b) ^ 2 = 2 * (b - a) * (v - (a + b) / 2) := by ring
  have hdiff' : (v - b) ^ 2 - (v - a) ^ 2 = 2 * (b - a) * ((a + b) / 2 - v) := by ring
  have hpos : 0 < 2 * (b - a) := by linarith
  refine ⟨?_, ?_, ?_⟩
  · rw [← sq_lt_sq, ← sub_pos, hdiff, mul_pos_iff_of_pos_left hpos, sub_pos]
  · rw [← sq_lt_sq, ← sub_pos, hdiff', mul_pos_iff_of_pos_left hpos, sub_pos]
  · rw [← sq_eq_sq_iff_abs_eq_abs, ← sub_eq_zero, hdiff, mul_eq_zero_iff_left hpos.ne', sub_eq_zero, eq_comm]

/-- To be nearest is to lie between the middles. -/
theorem isNearest_iff_within : IsNearest v r ↔ Within v r := by
  constructor
  · rintro ⟨hfinite, hnearest⟩
    refine ⟨hfinite, fun hpos => ?_, fun hlt => ?_⟩
    · obtain ⟨hnear, -, htie⟩ := @abs_sub_lt_iff_middle v _ _ (value_strictMono (Nat.sub_lt hpos Nat.one_pos))
      rw [middle, Nat.sub_add_cancel hpos, ← hnear, ← htie, eq_comm]
      exact hnearest (r - 1) (by omega) (by omega)
    · obtain ⟨-, hnear, htie⟩ := @abs_sub_lt_iff_middle v _ _ (value_strictMono (Nat.lt_succ_self r))
      rw [middle, ← hnear, eq_comm, ← htie]
      exact hnearest (r + 1) hlt (by omega)
  · rintro ⟨hfinite, hlower, hupper⟩
    refine ⟨hfinite, fun r' hr' hne => ?_⟩
    rcases Nat.lt_or_gt_of_ne hne with hlt | hgt
    · obtain ⟨hnear, -, htie⟩ := @abs_sub_lt_iff_middle v _ _ (value_strictMono hlt)
      have hle : (value r' + value r) / 2 ≤ middle (r - 1) := by
        have hstep := value_strictMono.monotone (Nat.le_sub_one_of_lt hlt)
        rw [middle, Nat.sub_add_cancel (by omega)]
        linarith
      rw [hnear, eq_comm, htie]
      rcases hlower (by omega) with hv | ⟨hv, heven⟩
      · exact .inl (hle.trans_lt hv)
      · exact (hle.trans_eq hv).lt_or_eq.imp_right fun h => ⟨h, heven⟩
    · obtain ⟨-, hnear, htie⟩ := @abs_sub_lt_iff_middle v _ _ (value_strictMono hgt)
      have hle : middle r ≤ (value r + value r') / 2 := by
        have hstep := value_strictMono.monotone (Nat.succ_le_of_lt hgt)
        rw [middle]
        linarith
      rw [hnear, htie]
      rcases hupper (by omega) with hv | ⟨hv, heven⟩
      · exact .inl (hv.trans_le hle)
      · exact (hv.trans_le hle).lt_or_eq.imp_right fun h => ⟨h.symm, heven⟩

/-- What lies between two numbers that are rounded to a float is rounded to it too. -/
theorem Within.convex (hu : Within u r) (hw : Within w r) (huv : u ≤ v) (hvw : v ≤ w) : Within v r := by
  refine ⟨hu.finite, fun hpos => ?_, fun hlt => ?_⟩
  · rcases hu.lower hpos with h | ⟨h, heven⟩
    · exact .inl (h.trans_le huv)
    · exact (h.trans_le huv).lt_or_eq.imp_right fun h => ⟨h, heven⟩
  · rcases hw.upper hlt with h | ⟨h, heven⟩
    · exact .inl (hvw.trans_lt h)
    · exact (hvw.trans_eq h).lt_or_eq.imp_right fun h => ⟨h, heven⟩

theorem Within.le (h : Within v r) (h' : Within v r') : r ≤ r' := by
  by_contra hlt
  have hgt : r' < r := Nat.lt_of_not_le hlt
  have hmono : middle r' ≤ middle (r - 1) := middle_strictMono.monotone (Nat.le_sub_one_of_lt hgt)
  rcases h.lower (by omega) with hlower | ⟨hlower, heven⟩
  · rcases h'.upper (hgt.trans_le h.finite) with hupper | ⟨hupper, -⟩ <;> linarith
  · rcases h'.upper (hgt.trans_le h.finite) with hupper | ⟨hupper, heven'⟩
    · linarith
    · -- the number is the middle between the two, and one of any two neighbours is odd
      have hsame : r' = r - 1 := middle_strictMono.injective (by linarith)
      omega

/-- A number is rounded to one float only. -/
theorem IsNearest.eq (h : IsNearest v r) (h' : IsNearest v r') : r = r' := by
  rw [isNearest_iff_within] at h h'
  exact Nat.le_antisymm (h.le h') (h'.le h)

theorem within_value (h : r ≤ infinite) : Within (value r) r := by
  refine ⟨h, fun hpos => ?_, fun _ => .inl (value_lt_middle r)⟩
  have hlower := middle_lt_value (r - 1)
  rw [Nat.sub_add_cancel hpos] at hlower
  exact .inl hlower

theorem middle_eq (r : Nat) : middle r = twiceMiddle r / (2 * scale) := by
  rw [middle, value, value, twiceMiddle, ← add_div, div_div, mul_comm, Nat.cast_add]

/-- Comparing with a middle is comparing whole numbers. -/
theorem middle_lt_iff {num den : Nat} (hden : 0 < den) :
    (middle r < num / den ↔ twiceMiddle r * den < 2 * (num * scale)) ∧
      ((num / den : ℚ) < middle r ↔ 2 * (num * scale) < twiceMiddle r * den) := by
  have hpos : (0 : ℚ) < den := Nat.cast_pos.mpr hden
  have hunit : (0 : ℚ) < 2 * scale := mul_pos two_pos (Nat.cast_pos.mpr scale_pos)
  have hswap : (num * (2 * scale) : ℚ) = 2 * (num * scale) := mul_left_comm ..
  rw [middle_eq, div_lt_div_iff₀ hunit hpos, div_lt_div_iff₀ hpos hunit, hswap]
  exact ⟨by exact_mod_cast Iff.rfl, by exact_mod_cast Iff.rfl⟩

theorem within_of_between {num den : Nat} (hden : 0 < den) (hfinite : r ≤ infinite)
    (h : Between (num * scale) den r) : Within (num / den) r := by
  have heq : ∀ k, middle k = (num / den : ℚ) ↔ twiceMiddle k * den = 2 * (num * scale) := by
    intro k
    obtain ⟨hlt, hgt⟩ := @middle_lt_iff k num den hden
    rw [eq_iff_le_not_lt, hlt, ← not_lt, hgt]
    omega
  refine ⟨hfinite, fun hpos => ?_, fun _ => ?_⟩
  · rw [(middle_lt_iff hden).1, heq]
    exact h.lower hpos
  · rw [(middle_lt_iff hden).2, eq_comm (b := middle r), heq, eq_comm]
    exact h.upper

theorem nearest_eq (num den : Nat) :
    nearest num den = min infinite (((num * scale / den).log2 - 52) * 2 ^ 52 +
      roundHalfEven (num * scale) (den * 2 ^ ((num * scale / den).log2 - 52))) := by
  unfold nearest scale
  rfl

/-- The float that `nearest` finds is nearest to the fraction. -/
theorem within_nearest (num : Nat) {den : Nat} (hden : 0 < den) : Within (num / den) (nearest num den) := by
  have hbetween := @between_significand (num * scale) den _ hden rfl
  rw [nearest_eq]
  generalize ((num * scale / den).log2 - 52) * 2 ^ 52 +
    roundHalfEven (num * scale) (den * 2 ^ ((num * scale / den).log2 - 52)) = k at hbetween ⊢
  rcases le_or_gt k infinite with hle | hlt
  · rw [Nat.min_eq_right hle]
    exact within_of_between hden hle hbetween
  · -- beyond the last finite float: the number lies behind the middle before infinity
    rw [Nat.min_eq_left hlt.le]
    refine ⟨le_rfl, fun hpos => .inl ?_, fun h => absurd h (lt_irrefl _)⟩
    have hmiddle : twiceMiddle (infinite - 1) * den < twiceMiddle (k - 1) * den :=
      Nat.mul_lt_mul_of_pos_right (twiceMiddle_strictMono (by omega)) hden
    rw [(middle_lt_iff hden).1]
    rcases hbetween.lower (by omega) with h | ⟨h, -⟩ <;> omega

end AddressLines.Binary64
