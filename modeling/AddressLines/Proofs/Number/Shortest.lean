import AddressLines.Proofs.Number.Decimal

/-!
# Shortest digits

The decimal that `shortest` finds is read as the float, no decimal with fewer digits is, and of those with as few
digits none is nearer to the value (`isShortest_shortest`).

On the grid of decimals with `n` digits the value of a float has two neighbours. A decimal with at most `n` digits that
is read as the float lies on one side of both (`le_below_or_above_le`), so one of them lies between it and the value and
is read as the float as well. With `17` digits the grid is finer than the numbers that are read as one float are
wide, so the search ends.
-/

namespace AddressLines.Decimal

open Binary64

variable {r n : Nat} {d : Decimal}

/-! ## The first digit -/

theorem units_pos (hr : 0 < r) : 0 < units r := by
  have hmono := units_strictMono hr
  omega

theorem cast_ten_pow (k : Nat) : ((Nat.pow 10 k : Nat) : ℚ) = (10 : ℚ) ^ k := by
  rw [Nat.pow_eq, Nat.cast_pow, Nat.cast_ofNat]

/-- The number of units of `10 ^ -324` in one, which are finer than those of the floats. -/
@[irreducible] def fineScale : Nat :=
  Nat.pow 10 324

theorem scale_le_fineScale : scale ≤ fineScale := by
  decide +kernel

theorem cast_fineScale : (fineScale : ℚ) = (10 : ℚ) ^ 324 := by
  decide +kernel

theorem leading_eq (r : Nat) : leading r = (width (units r * fineScale / scale) : Int) - 325 := by
  unfold leading fineScale scale
  rfl

theorem floor_bounds (num : Nat) {den : Nat} (hden : 0 < den) :
    ((num / den : Nat) : ℚ) ≤ num / den ∧ (num / den : ℚ) < (num / den : Nat) + 1 := by
  have hpos : (0 : ℚ) < den := Nat.cast_pos.mpr hden
  rw [le_div_iff₀ hpos, div_lt_iff₀ hpos]
  constructor
  · exact_mod_cast Nat.div_mul_le_self num den
  · exact_mod_cast Nat.lt_mul_of_div_lt (Nat.lt_succ_self (num / den)) hden

/-- The exponent of the first digit of a float. -/
theorem leading_bounds (hr : 0 < r) :
    (10 : ℚ) ^ leading r ≤ Binary64.value r ∧ Binary64.value r < (10 : ℚ) ^ (leading r + 1) := by
  rw [leading_eq]
  have hlarge : 0 < units r * fineScale / scale := by
    apply Nat.div_pos _ scale_pos
    exact scale_le_fineScale.trans (Nat.le_mul_of_pos_left _ (units_pos hr))
  have hvalue : Binary64.value r * (10 : ℚ) ^ (324 : Int) = (units r * fineScale : Nat) / scale := by
    rw [Binary64.value, Nat.cast_mul, cast_fineScale, div_mul_eq_mul_div, ← zpow_natCast]
    rfl
  obtain ⟨hfloor, hceil⟩ := floor_bounds (units r * fineScale) scale_pos
  rw [← hvalue] at hfloor hceil
  have hlow := pow_width_le hlarge
  have hhigh := lt_pow_width (units r * fineScale / scale)
  have hwidth := width_pos (units r * fineScale / scale)
  generalize units r * fineScale / scale = k at hfloor hceil hlow hhigh hwidth
  have hten : (0 : ℚ) < 10 ^ (324 : Int) := by positivity
  constructor
  · refine le_of_mul_le_mul_right ?_ hten
    calc (10 : ℚ) ^ ((width k : Int) - 325) * 10 ^ (324 : Int) = 10 ^ (width k - 1) := by
          rw [← zpow_add₀ (by norm_num), ← zpow_natCast]
          congr 1
          omega
      _ ≤ k := by exact_mod_cast hlow
      _ ≤ _ := hfloor
  · refine lt_of_mul_lt_mul_right ?_ hten.le
    calc Binary64.value r * 10 ^ (324 : Int) < k + 1 := hceil
      _ ≤ 10 ^ width k := by exact_mod_cast hhigh
      _ = 10 ^ ((width k : Int) - 325 + 1) * 10 ^ (324 : Int) := by
          rw [← zpow_add₀ (by norm_num), ← zpow_natCast]
          congr 1
          omega

/-! ## The neighbours of a value on a grid -/

theorem gridFraction_eq (r : Nat) (e : Int) :
    gridFraction r e = if 0 ≤ e then (units r, scale * Nat.pow 10 e.toNat)
      else (units r * Nat.pow 10 (-e).toNat, scale) := by
  unfold gridFraction scale
  rfl

/-- The fraction is the value in units of `10 ^ e`. -/
theorem gridFraction_value (r : Nat) (e : Int) :
    0 < (gridFraction r e).2 ∧
      ((gridFraction r e).1 / (gridFraction r e).2 : ℚ) = Binary64.value r / (10 : ℚ) ^ e := by
  rw [gridFraction_eq]
  split_ifs with he
  · obtain ⟨k, rfl⟩ := Int.eq_ofNat_of_zero_le he
    dsimp only
    refine ⟨Nat.mul_pos scale_pos (Nat.pow_pos (by decide)), ?_⟩
    rw [Int.toNat_natCast, Nat.cast_mul, cast_ten_pow, Binary64.value, zpow_natCast, div_div]
  · obtain ⟨k, rfl⟩ : ∃ k : Nat, e = -k := ⟨(-e).toNat, by omega⟩
    dsimp only
    refine ⟨scale_pos, ?_⟩
    rw [neg_neg, Int.toNat_natCast, Nat.cast_mul, cast_ten_pow, Binary64.value, zpow_neg, zpow_natCast, div_inv_eq_mul,
      div_mul_eq_mul_div]

theorem below_le_value (r n : Nat) : (below r n).value ≤ Binary64.value r := by
  obtain ⟨hden, hvalue⟩ := gridFraction_value r (leading r + 1 - n)
  have hfloor := (floor_bounds (gridFraction r (leading r + 1 - n)).1 hden).1
  rw [hvalue, le_div_iff₀ (by positivity)] at hfloor
  exact hfloor

theorem value_lt_above (r n : Nat) : Binary64.value r < (above r n).value := by
  obtain ⟨hden, hvalue⟩ := gridFraction_value r (leading r + 1 - n)
  have hceil := (floor_bounds (gridFraction r (leading r + 1 - n)).1 hden).2
  rw [hvalue, div_lt_iff₀ (by positivity)] at hceil
  have habove : (above r n).value = ((below r n).digits + 1) * (10 : ℚ) ^ (leading r + 1 - n : Int) := by
    rw [value, above, Nat.cast_add_one]
  rw [habove]
  exact hceil

/-- Between two neighbours there is nothing on the grid. -/
theorem grid_side (r n j : Nat) :
    j * (10 : ℚ) ^ (leading r + 1 - n : Int) ≤ (below r n).value ∨
      (above r n).value ≤ j * (10 : ℚ) ^ (leading r + 1 - n : Int) := by
  have hstep : (0 : ℚ) ≤ 10 ^ (leading r + 1 - n : Int) := by positivity
  rcases Nat.lt_or_ge (below r n).digits j with hlt | hge
  · right
    exact mul_le_mul_of_nonneg_right (Nat.cast_le.mpr hlt) hstep
  · left
    exact mul_le_mul_of_nonneg_right (Nat.cast_le.mpr hge) hstep

theorem ten_pow_le_below (hr : 0 < r) (hn : 0 < n) : (10 : ℚ) ^ leading r ≤ (below r n).value := by
  have hpow : ((10 ^ (n - 1) : Nat) : ℚ) * 10 ^ (leading r + 1 - n : Int) = 10 ^ leading r := by
    rw [Nat.cast_pow, Nat.cast_ofNat, ← zpow_natCast, ← zpow_add₀ (by norm_num)]
    congr 1
    omega
  have hside := grid_side r n (10 ^ (n - 1))
  rw [hpow] at hside
  apply hside.resolve_right
  intro habove
  have hleading := (leading_bounds hr).1
  have hvalue := value_lt_above r n
  linarith

/-- A decimal with at most `n` digits does not lie between the two neighbours of the value. -/
theorem le_below_or_above_le (hr : 0 < r) (hn : 0 < n) (hd : d.digits < 10 ^ n) :
    d.value ≤ (below r n).value ∨ (above r n).value ≤ d.value := by
  rcases lt_or_ge d.value ((10 : ℚ) ^ leading r) with hsmall | hlarge
  · exact .inl (hsmall.le.trans (ten_pow_le_below hr hn))
  · -- the decimal is large enough to lie on the grid
    have hdigits : (d.digits : ℚ) < 10 ^ (n : Int) := by
      rw [zpow_natCast]
      exact_mod_cast hd
    have hvalue : (10 : ℚ) ^ leading r < 10 ^ (n + d.exponent) := by
      calc (10 : ℚ) ^ leading r ≤ d.digits * 10 ^ d.exponent := hlarge
        _ < 10 ^ (n : Int) * 10 ^ d.exponent := mul_lt_mul_of_pos_right hdigits (by positivity)
        _ = 10 ^ (n + d.exponent) := (zpow_add₀ (by norm_num) _ _).symm
    have hexponent : leading r < n + d.exponent := (zpow_lt_zpow_iff_right₀ (by norm_num)).mp hvalue
    obtain ⟨k, hk⟩ : ∃ k : Nat, d.exponent = k + (leading r + 1 - n) :=
      ⟨(d.exponent - (leading r + 1 - n)).toNat, by omega⟩
    have hgrid : d.value = ((d.digits * 10 ^ k : Nat) : ℚ) * 10 ^ (leading r + 1 - n : Int) := by
      rw [value, hk, zpow_add₀ (by norm_num), zpow_natCast]
      push_cast
      ring
    rw [hgrid]
    exact grid_side r n _

/-! ## Candidates on a grid -/

/-- What is left of the value above its lower neighbour is less than half a step. -/
theorem isLowerHalf_iff (r n : Nat) :
    isLowerHalf r n = true ↔ 2 * Binary64.value r < (below r n).value + (above r n).value := by
  obtain ⟨hden, hvalue⟩ := gridFraction_value r (leading r + 1 - n)
  have hstep : (0 : ℚ) < 10 ^ (leading r + 1 - n : Int) := by positivity
  have hpos : (0 : ℚ) < (gridFraction r (leading r + 1 - n)).2 := Nat.cast_pos.mpr hden
  have hdigits : (below r n).digits = (gridFraction r (leading r + 1 - n)).1 / (gridFraction r (leading r + 1 - n)).2 :=
    rfl
  have hsum : (below r n).value + (above r n).value =
      (2 * (below r n).digits + 1) * (10 : ℚ) ^ (leading r + 1 - n : Int) := by
    rw [value, value, above, below, Nat.cast_add_one]
    ring
  rw [hsum, ← div_lt_iff₀ hstep, mul_div_assoc, ← hvalue, ← mul_div_assoc, div_lt_iff₀ hpos, hdigits, isLowerHalf,
    decide_eq_true_eq]
  generalize (gridFraction r (leading r + 1 - n)).1 = num
  generalize (gridFraction r (leading r + 1 - n)).2 = den
  have hsplit : num / den * den + num % den = num := Nat.div_add_mod' num den
  have hnat : 2 * num < (2 * (num / den) + 1) * den ↔ 2 * (num % den) < den := by
    rw [Nat.add_mul, Nat.mul_assoc]
    generalize num / den * den = low at hsplit
    omega
  rw [← hnat]
  exact_mod_cast Iff.rfl

/-- One of the neighbours that is read as the float, and none that is read so is nearer. -/
structure IsCandidate (r n : Nat) (d : Decimal) : Prop where
  neighbour : d = below r n ∨ d = above r n
  reads : IsNearest d.value r
  below_no_nearer : IsNearest (below r n).value r →
    |Binary64.value r - d.value| ≤ |Binary64.value r - (below r n).value|
  above_no_nearer : IsNearest (above r n).value r →
    |Binary64.value r - d.value| ≤ |Binary64.value r - (above r n).value|

theorem onGrid?_eq_none_iff :
    onGrid? r n = none ↔ ¬ IsNearest (below r n).value r ∧ ¬ IsNearest (above r n).value r := by
  rw [onGrid?, ← readsAs_iff, ← readsAs_iff]
  split_ifs with hbelow habove habove <;> simp [hbelow, habove]

theorem isCandidate_of_onGrid? (h : onGrid? r n = some d) : IsCandidate r n d := by
  have hbelow := below_le_value r n
  have habove := value_lt_above r n
  have hlow : |Binary64.value r - (below r n).value| = Binary64.value r - (below r n).value :=
    abs_of_nonneg (by linarith)
  have hhigh : |Binary64.value r - (above r n).value| = (above r n).value - Binary64.value r := by
    rw [abs_sub_comm]
    exact abs_of_pos (by linarith)
  rw [onGrid?] at h
  split_ifs at h with hb ha hhalf ha <;> try rw [isLowerHalf_iff] at hhalf
  · obtain rfl := Option.some.inj h
    refine ⟨.inl rfl, readsAs_iff.mp hb, fun _ => le_rfl, fun _ => ?_⟩
    rw [hlow, hhigh]
    linarith
  · obtain rfl := Option.some.inj h
    refine ⟨.inr rfl, readsAs_iff.mp ha, fun _ => ?_, fun _ => le_rfl⟩
    rw [hlow, hhigh]
    linarith
  · obtain rfl := Option.some.inj h
    exact ⟨.inl rfl, readsAs_iff.mp hb, fun _ => le_rfl, fun hnearest => absurd (readsAs_iff.mpr hnearest) ha⟩
  · obtain rfl := Option.some.inj h
    exact ⟨.inr rfl, readsAs_iff.mp ha, fun hnearest => absurd (readsAs_iff.mpr hnearest) hb, fun _ => le_rfl⟩

/-- A neighbour lies between the value and a decimal with at most `n` digits that is read as the float. -/
theorem neighbour_between (hr : 0 < r) (hn : 0 < n) (hfinite : r ≤ infinite) (hd : d.digits < 10 ^ n)
    (hreads : IsNearest d.value r) :
    IsNearest (below r n).value r ∧ |Binary64.value r - (below r n).value| ≤ |Binary64.value r - d.value| ∨
      IsNearest (above r n).value r ∧ |Binary64.value r - (above r n).value| ≤ |Binary64.value r - d.value| := by
  have hbelow := below_le_value r n
  have habove := value_lt_above r n
  have hself := within_value hfinite
  rw [isNearest_iff_within] at hreads
  rcases le_below_or_above_le hr hn hd with hle | hge
  · left
    refine ⟨isNearest_iff_within.mpr (hreads.convex hself hle hbelow), ?_⟩
    rw [abs_of_nonneg (by linarith), abs_of_nonneg (by linarith)]
    linarith
  · right
    refine ⟨isNearest_iff_within.mpr (hself.convex hreads habove.le hge), ?_⟩
    rw [abs_of_nonpos (by linarith), abs_of_nonpos (by linarith)]
    linarith

theorem onGrid?_ne_none (hr : 0 < r) (hn : 0 < n) (hfinite : r ≤ infinite) (hd : d.digits < 10 ^ n)
    (hreads : IsNearest d.value r) : onGrid? r n ≠ none := by
  rw [Ne, onGrid?_eq_none_iff]
  rintro ⟨hbelow, habove⟩
  rcases neighbour_between hr hn hfinite hd hreads with ⟨h, -⟩ | ⟨h, -⟩
  · exact hbelow h
  · exact habove h

/-- No decimal with at most `n` digits that is read as the float is nearer to it than a candidate. -/
theorem IsCandidate.no_nearer {c : Decimal} (h : IsCandidate r n c) (hr : 0 < r) (hn : 0 < n) (hfinite : r ≤ infinite)
    (hd : d.digits < 10 ^ n) (hreads : IsNearest d.value r) :
    |Binary64.value r - c.value| ≤ |Binary64.value r - d.value| := by
  rcases neighbour_between hr hn hfinite hd hreads with ⟨hbelow, hle⟩ | ⟨habove, hle⟩
  · exact (h.below_no_nearer hbelow).trans hle
  · exact (h.above_no_nearer habove).trans hle

theorem below_digits_lt (hr : 0 < r) (n : Nat) : (below r n).digits < 10 ^ n := by
  have hstep : (0 : ℚ) < 10 ^ (leading r + 1 - n : Int) := by positivity
  have hlt : (below r n).digits * (10 : ℚ) ^ (leading r + 1 - n : Int) < (10 ^ n : Nat) * 10 ^ (leading r + 1 - n : Int) := by
    calc (below r n).digits * (10 : ℚ) ^ (leading r + 1 - n : Int) ≤ Binary64.value r := below_le_value r n
      _ < 10 ^ (leading r + 1) := (leading_bounds hr).2
      _ = (10 ^ n : Nat) * 10 ^ (leading r + 1 - n : Int) := by
          rw [Nat.cast_pow, Nat.cast_ofNat, ← zpow_natCast, ← zpow_add₀ (by norm_num)]
          congr 1
          omega
  exact Nat.cast_lt.mp (lt_of_mul_lt_mul_right hlt hstep.le)

/-- A candidate has at most `n` digits that count. -/
theorem IsCandidate.length_le (h : IsCandidate r n d) (hr : 0 < r) (hn : 0 < n) : d.digitList.length ≤ n := by
  have hbelow := below_digits_lt hr n
  rcases h.neighbour with rfl | rfl
  · exact length_digitList_le (k := 0) (Nat.mul_one _).symm hbelow hn
  · rcases Nat.eq_or_lt_of_le (Nat.succ_le_of_lt hbelow) with hpower | hlt
    · -- the next power of ten has one digit that counts
      have hone : (above r n).digits = 1 * 10 ^ n := by rw [Nat.one_mul, ← hpower, above]
      exact length_digitList_le hone (Nat.one_lt_pow (by omega) (by decide)) hn
    · exact length_digitList_le (k := 0) (Nat.mul_one _).symm hlt hn

/-! ## Seventeen digits -/

theorem above_sub_below (r n : Nat) : (above r n).value - (below r n).value = (10 : ℚ) ^ (leading r + 1 - n : Int) := by
  rw [value, value, above, below, Nat.cast_add_one]
  ring

/-- A step of the grid with seventeen digits is narrower than what is read as one float. -/
theorem onGrid?_seventeen (hr : 0 < r) (hfinite : r < infinite) : onGrid? r 17 ≠ none := by
  obtain ⟨k, rfl⟩ := Nat.exists_eq_succ_of_ne_zero hr.ne'
  rw [Ne, onGrid?_eq_none_iff, isNearest_iff_within, isNearest_iff_within]
  rintro ⟨hbelow, habove⟩
  have hlow : (below (k + 1) 17).value ≤ middle k := by
    by_contra hlt
    apply hbelow
    have hvalue := (below_le_value (k + 1) 17).trans_lt (value_lt_middle (k + 1))
    exact ⟨hfinite.le, fun _ => .inl (lt_of_not_ge hlt), fun _ => .inl hvalue⟩
  have hhigh : middle (k + 1) ≤ (above (k + 1) 17).value := by
    by_contra hlt
    apply habove
    have hvalue := (middle_lt_value k).trans (value_lt_above (k + 1) 17)
    exact ⟨hfinite.le, fun _ => .inl hvalue, fun _ => .inl (lt_of_not_ge hlt)⟩
  -- so the two middles lie within one step, which is at most a part in `10 ^ 16` of the value
  have hstep := above_sub_below (k + 1) 17
  have hleading : (10 : ℚ) ^ 16 * 10 ^ (leading (k + 1) + 1 - (17 : Nat) : Int) ≤ Binary64.value (k + 1) := by
    calc (10 : ℚ) ^ 16 * 10 ^ (leading (k + 1) + 1 - (17 : Nat) : Int) = 10 ^ leading (k + 1) := by
          rw [← zpow_natCast, ← zpow_add₀ (by norm_num)]
          congr 1
          push_cast
          ring
      _ ≤ Binary64.value (k + 1) := (leading_bounds hr).1
  have hspacing := value_lt_spacing k
  have hgap := value_strictMono (show k < k + 2 by omega)
  rw [← hstep] at hleading
  rw [middle] at hlow hhigh
  linarith

/-! ## The search -/

/-- The search takes the first grid on which a neighbour is read as the float. -/
theorem shortest_onGrid? (hr : 0 < r) (hfinite : r < infinite) :
    ∃ n, 0 < n ∧ onGrid? r n = some (shortest r) ∧ ∀ k, 0 < k → k < n → onGrid? r k = none := by
  have hfound : (List.range 17).findSome? (fun i => onGrid? r (i + 1)) ≠ none := by
    intro hnone
    rw [List.findSome?_eq_none_iff] at hnone
    exact onGrid?_seventeen hr hfinite (hnone 16 (List.mem_range.mpr (by decide)))
  obtain ⟨d, hd⟩ := Option.ne_none_iff_exists'.mp hfound
  have hshortest : shortest r = d := by rw [shortest, hd, Option.getD_some]
  obtain ⟨earlier, i, later, hrange, hi, hnone⟩ := List.findSome?_eq_some_iff.mp hd
  refine ⟨i + 1, Nat.succ_pos i, hshortest ▸ hi, fun k hk hlt => ?_⟩
  have hsorted := @List.pairwise_lt_range 17
  rw [hrange, List.pairwise_append, List.pairwise_cons] at hsorted
  have hmem : k - 1 ∈ List.range 17 := by
    have hi17 : i ∈ List.range 17 := hrange ▸ List.mem_append_right _ (List.mem_cons_self ..)
    rw [List.mem_range] at hi17 ⊢
    omega
  rw [hrange, List.mem_append, List.mem_cons] at hmem
  rcases hmem with hearlier | hsame | hlater
  · have hbefore := hnone (k - 1) hearlier
    rwa [Nat.sub_add_cancel hk] at hbefore
  · omega
  · have hafter := hsorted.2.1.1 (k - 1) hlater
    omega

/-- The decimal is read as the float, with as few digits as any that is, and none with as few is nearer to the value. -/
structure IsShortest (r : Nat) (d : Decimal) : Prop where
  reads : IsNearest d.value r
  fewest : ∀ c : Decimal, IsNearest c.value r → d.digitList.length ≤ c.digitList.length
  closest : ∀ c : Decimal, IsNearest c.value r → c.digitList.length = d.digitList.length →
    |Binary64.value r - d.value| ≤ |Binary64.value r - c.value|

/-- Zero is not read as another float. -/
theorem length_digitList_pos (hr : 0 < r) (hreads : IsNearest d.value r) : 0 < d.digitList.length := by
  by_contra hzero
  have hvalue : d.value = 0 := by
    have hnil : d.digitList = [] := List.length_eq_zero_iff.mp (by omega)
    rw [value_eq, hnil]
    simp [Numeral.digitsValue]
  rw [hvalue] at hreads
  have hsame := hreads.eq isNearest_zero
  omega

theorem isShortest_shortest (hr : 0 < r) (hfinite : r < infinite) : IsShortest r (shortest r) := by
  obtain ⟨n, hn, hfound, hnone⟩ := shortest_onGrid? hr hfinite
  have hcandidate := isCandidate_of_onGrid? hfound
  have hlength := hcandidate.length_le hr hn
  refine ⟨hcandidate.reads, fun c hc => ?_, fun c hc hsame => ?_⟩
  · -- with fewer digits the search would have ended on an earlier grid
    obtain ⟨c', hvalue, hdigits⟩ := c.exists_value_eq
    by_contra hlt
    have hpos := length_digitList_pos hr hc
    exact onGrid?_ne_none hr hpos hfinite.le hdigits (hvalue ▸ hc) (hnone _ hpos (by omega))
  · obtain ⟨c', hvalue, hdigits⟩ := c.exists_value_eq
    have hfew : c'.digits < 10 ^ n := hdigits.trans_le (Nat.pow_le_pow_right (by decide) (by omega))
    rw [← hvalue]
    exact hcandidate.no_nearer hr hn hfinite.le hfew (hvalue ▸ hc)

end AddressLines.Decimal
