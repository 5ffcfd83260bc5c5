import AddressLines.Proofs.Number.Decimal
import Mathlib.Data.List.TakeDrop

/-!
# Numerals and the numbers they stand for

A numeral is digits, perhaps with a point among them and perhaps with an exponent behind them. It stands for an exact
number (`Plain`), and it is read as the float nearest to that number (`Plain.exists_float?`). A text that starts with a
digit carries no sign and is none of the words for infinity and for what is not a number.
-/

namespace AddressLines.Numeral

open Binary64 Decimal

variable {c : Char} {cs ds whole part rest : List Char} {v : ℚ} {e : Int}

/-! ## Signs and words -/

theorem toNat_of_isDigit (h : c.isDigit = true) : 48 ≤ c.toNat ∧ c.toNat ≤ 57 := by
  simp only [Char.isDigit, Bool.and_eq_true, decide_eq_true_eq, ge_iff_le, UInt32.le_iff_toNat_le] at h
  exact h

theorem unsigned_digit (hc : c.isDigit = true) (cs : List Char) : unsigned (c :: cs) = (false, c :: cs) := by
  rw [unsigned]
  · intro _ hminus
    obtain rfl : c = '-' := (List.cons.inj hminus).1
    simp at hc
  · intro _ hplus
    obtain rfl : c = '+' := (List.cons.inj hplus).1
    simp at hc

theorem toLower_of_isDigit (hc : c.isDigit = true) : c.toLower = c := by
  have hle := (toNat_of_isDigit hc).2
  refine dif_neg fun hupper => ?_
  have hge : 65 ≤ c.toNat := UInt32.le_iff_toNat_le.mp hupper.1
  omega

/-- What starts like none of the words is read as a decimal. -/
theorem float?_of_unsigned {negative : Bool} (hunsigned : unsigned ds = (negative, c :: cs))
    (hc : c.toLower ≠ 'i' ∧ c.toLower ≠ 'n') :
    float? ds = (decimal? (c :: cs)).map fun d => .ofMagnitude negative (Binary64.nearestDecimal d.1 d.2) := by
  have hword : ∀ w : String, w.toList.head? = some 'i' ∨ w.toList.head? = some 'n' →
      String.ofList ((c :: cs).map Char.toLower) ≠ w := by
    rintro w hw rfl
    simp [hc] at hw
  have hinf := hword "inf" (by decide)
  have hinfinity := hword "infinity" (by decide)
  have hnan := hword "nan" (by decide)
  simp only [float?, hunsigned, hinf, hinfinity, hnan, or_self, if_false]

/-- What starts with a digit, perhaps behind a minus sign, is read as a decimal. -/
theorem float?_digit (hc : c.isDigit = true) (negative : Bool) (cs : List Char) :
    float? ((if negative then ['-'] else []) ++ c :: cs) =
      (decimal? (c :: cs)).map fun d => .ofMagnitude negative (Binary64.nearestDecimal d.1 d.2) := by
  have hunsigned : unsigned ((if negative then ['-'] else []) ++ c :: cs) = (negative, c :: cs) := by
    cases negative with
    | false => exact unsigned_digit hc cs
    | true => rfl
  refine float?_of_unsigned hunsigned ?_
  rw [toLower_of_isDigit hc]
  constructor
  · rintro rfl
    exact absurd hc (by decide)
  · rintro rfl
    exact absurd hc (by decide)

/-- A quote starts no number. -/
theorem float?_quote (hquote : c = '"' ∨ c = '\'') (cs : List Char) : float? (c :: cs) = none := by
  have hdecimal : decimal? (c :: cs) = none := by
    rcases hquote with rfl | rfl
    · rfl
    · rfl
  have hunsigned : unsigned (c :: cs) = (false, c :: cs) := by
    rcases hquote with rfl | rfl
    · rfl
    · rfl
  rw [float?_of_unsigned hunsigned (by rcases hquote with rfl | rfl <;> decide), hdecimal, Option.map_none]

/-! ## Digits -/

theorem natural?_digits (hne : ds ≠ []) (hds : ∀ c ∈ ds, c.isDigit = true) : natural? ds = some (digitsValue ds) := by
  have hall : ds.all Char.isDigit = true := List.all_eq_true.mpr hds
  simp [natural?, hne, hall]

theorem natural?_of_mem (hc : c ∈ cs) (hdigit : c.isDigit = false) : natural? cs = none := by
  have hall : cs.all Char.isDigit = false := List.all_eq_false.mpr ⟨c, hc, by simp [hdigit]⟩
  simp [natural?, hall]

theorem exponent?_signed {mark sign : Char} (hmark : mark = 'e' ∨ mark = 'E') (hsign : sign = '+' ∨ sign = '-')
    (hne : ds ≠ []) (hds : ∀ c ∈ ds, c.isDigit = true) :
    exponent? (mark :: sign :: ds) = some (if sign = '-' then -(digitsValue ds : Int) else digitsValue ds) := by
  rw [exponent?, if_pos hmark, signed?]
  rcases hsign with rfl | rfl
  · simp [unsigned, natural?_digits hne hds]
  · simp [unsigned, natural?_digits hne hds]

theorem signed?_digits (hne : ds ≠ []) (hds : ∀ c ∈ ds, c.isDigit = true) :
    signed? ds = some (digitsValue ds : Int) := by
  obtain ⟨c, cs, rfl⟩ := List.exists_cons_of_ne_nil hne
  have hunsigned := unsigned_digit (hds c (List.mem_cons_self ..)) cs
  simp [signed?, hunsigned, natural?_digits hne hds]

/-- Digits are a number of 32 bits with its sign if they are at most the greatest one, zeros before them or not. -/
theorem integer?_digits (hne : ds ≠ []) (hds : ∀ c ∈ ds, c.isDigit = true) :
    integer? ds = if digitsValue ds ≤ 2147483647 then some (digitsValue ds : Int) else none := by
  rw [integer?, signed?_digits hne hds, Option.filter_some]
  congr 1
  simp only [decide_eq_true_eq, eq_iff_iff]
  omega

/-- What is not a digit makes the digits before it no whole number. -/
theorem integer?_mark (hne : ds ≠ []) (hds : ∀ c ∈ ds, c.isDigit = true) {mark : Char} (hmark : mark.isDigit = false)
    (rest : List Char) : integer? (ds ++ mark :: rest) = none := by
  obtain ⟨c, cs, rfl⟩ := List.exists_cons_of_ne_nil hne
  have hunsigned := unsigned_digit (hds c (List.mem_cons_self ..)) (cs ++ mark :: rest)
  have hnatural : natural? (c :: (cs ++ mark :: rest)) = none := natural?_of_mem (by simp) hmark
  simp [integer?, signed?, hunsigned, hnatural]

theorem span_digits (hwhole : ∀ c ∈ whole, c.isDigit = true) (hrest : ∀ c ∈ rest.head?, c.isDigit = false) :
    (whole ++ rest).span Char.isDigit = (whole, rest) := by
  rw [List.span_eq_takeWhile_dropWhile, List.takeWhile_append_of_pos hwhole, List.dropWhile_append_of_pos hwhole]
  cases rest with
  | nil => simp
  | cons c rest =>
    have hc := hrest c rfl
    simp [hc]

/-! ## Decimals -/

theorem decimal?_whole (hne : whole ≠ []) (hwhole : ∀ c ∈ whole, c.isDigit = true)
    (hrest : ∀ c ∈ rest.head?, c.isDigit = false ∧ c ≠ '.') :
    decimal? (whole ++ rest) = (exponent? rest).map fun e => (digitsValue whole, e) := by
  have hspan := span_digits hwhole fun c hc => (hrest c hc).1
  have hfraction : fraction rest = ([], rest) := by
    rw [fraction]
    rintro _ rfl
    exact (hrest '.' rfl).2 rfl
  simp only [decimal?, hspan, hfraction]
  simp [hne]

theorem decimal?_point (hne : whole ≠ []) (hwhole : ∀ c ∈ whole, c.isDigit = true)
    (hpart : ∀ c ∈ part, c.isDigit = true) (hrest : ∀ c ∈ rest.head?, c.isDigit = false) :
    decimal? (whole ++ '.' :: (part ++ rest)) =
      (exponent? rest).map fun e => (digitsValue (whole ++ part), e - (part.length : Int)) := by
  have hspan : (whole ++ '.' :: (part ++ rest)).span Char.isDigit = (whole, '.' :: (part ++ rest)) :=
    span_digits hwhole (by simp)
  have hfraction : fraction ('.' :: (part ++ rest)) = (part, rest) := span_digits hpart hrest
  simp only [decimal?, hspan, hfraction]
  simp [hne]

/-- What follows the digits is neither a fraction nor an exponent. -/
theorem float?_mark (hne : ds ≠ []) (hds : ∀ c ∈ ds, c.isDigit = true) {mark : Char}
    (hmark : mark.isDigit = false ∧ mark ≠ '.') (hexponent : exponent? (mark :: rest) = none) :
    float? (ds ++ mark :: rest) = none := by
  have hdecimal : decimal? (ds ++ mark :: rest) = none := by
    rw [decimal?_whole hne hds (by simp [hmark]), hexponent, Option.map_none]
  obtain ⟨c, cs, rfl⟩ := List.exists_cons_of_ne_nil hne
  have hfloat := float?_digit (hds c (List.mem_cons_self ..)) false (cs ++ mark :: rest)
  rw [← List.cons_append, hdecimal, Option.map_none] at hfloat
  exact hfloat

/-- Digits, perhaps with a point and digits behind it, and the number they stand for. -/
inductive Plain : List Char → ℚ → Prop where
  | whole {ds : List Char} (hne : ds ≠ []) (hds : ∀ c ∈ ds, c.isDigit = true) : Plain ds (digitsValue ds)
  | point {ds part : List Char} (hne : ds ≠ []) (hds : ∀ c ∈ ds, c.isDigit = true)
      (hpart : ∀ c ∈ part, c.isDigit = true) :
      Plain (ds ++ '.' :: part) (digitsValue (ds ++ part) / 10 ^ part.length)

namespace Plain

/-- An exponent mark is neither a digit nor a point. -/
theorem notMem (h : Plain cs v) (hc : c.isDigit = false) (hpoint : c ≠ '.') : c ∉ cs := by
  have hdigits : ∀ ds : List Char, (∀ x ∈ ds, x.isDigit = true) → c ∉ ds := by
    intro ds hds hmem
    rw [hds c hmem] at hc
    exact absurd hc (by decide)
  cases h with
  | whole _ hds => exact hdigits _ hds
  | point _ hds hpart => simp [hdigits _ hds, hdigits _ hpart, hpoint]

theorem exists_cons (h : Plain cs v) : ∃ c cs', c.isDigit = true ∧ cs = c :: cs' := by
  cases h with
  | whole hne hds =>
    obtain ⟨c, cs', rfl⟩ := List.exists_cons_of_ne_nil hne
    exact ⟨c, cs', hds c (List.mem_cons_self ..), rfl⟩
  | point hne hds _ =>
    obtain ⟨c, cs', rfl⟩ := List.exists_cons_of_ne_nil hne
    exact ⟨c, _, hds c (List.mem_cons_self ..), rfl⟩

theorem exists_decimal? (h : Plain cs v) (hrest : ∀ c ∈ rest.head?, c.isDigit = false ∧ c ≠ '.')
    (hexponent : exponent? rest = some e) :
    ∃ d : Decimal, decimal? (cs ++ rest) = some (d.digits, d.exponent) ∧ d.value = v * 10 ^ e := by
  cases h with
  | whole hne hds =>
    refine ⟨⟨digitsValue cs, e⟩, ?_, rfl⟩
    rw [decimal?_whole hne hds hrest, hexponent, Option.map_some]
  | @point ds part hne hds hpart =>
    refine ⟨⟨digitsValue (ds ++ part), e - (part.length : Int)⟩, ?_, ?_⟩
    · rw [List.append_assoc, List.cons_append, decimal?_point hne hds hpart fun c hc => (hrest c hc).1, hexponent,
        Option.map_some]
    · rw [Decimal.value, zpow_sub₀ (by norm_num), zpow_natCast]
      ring

/-- A numeral is read as the float nearest to the number it stands for. -/
theorem exists_float? (h : Plain cs v) (hrest : ∀ c ∈ rest.head?, c.isDigit = false ∧ c ≠ '.')
    (hexponent : exponent? rest = some e) (negative : Bool) :
    ∃ r, float? ((if negative then ['-'] else []) ++ (cs ++ rest)) = some (.ofMagnitude negative r) ∧
      IsNearest (v * 10 ^ e) r := by
  obtain ⟨d, hd, hvalue⟩ := h.exists_decimal? hrest hexponent
  obtain ⟨c, cs', hc, rfl⟩ := h.exists_cons
  refine ⟨nearestDecimal d.digits d.exponent, ?_, ?_⟩
  · rw [List.cons_append] at hd ⊢
    rw [float?_digit hc, hd, Option.map_some]
  · rw [← hvalue]
    exact isNearest_nearestDecimal d.digits d.exponent

theorem exists_float?_alone (h : Plain cs v) (negative : Bool) :
    ∃ r, float? ((if negative then ['-'] else []) ++ cs) = some (.ofMagnitude negative r) ∧ IsNearest v r := by
  have hend : ∀ c ∈ ([] : List Char).head?, c.isDigit = false ∧ c ≠ '.' := by simp
  have hread := h.exists_float? hend rfl negative
  simpa using hread

end Plain

/-! ## Signed exponents -/

/-- A numeral with a signed exponent of two digits at least, the number it stands for and its exponent. -/
inductive Scientific : List Char → ℚ → Int → Prop where
  | up {cs ds : List Char} {v : ℚ} (hplain : Plain cs v) (htwo : 2 ≤ ds.length) (hds : ∀ c ∈ ds, c.isDigit = true) :
      Scientific (cs ++ 'e' :: '+' :: ds) (v * 10 ^ digitsValue ds) (digitsValue ds)
  | down {cs ds : List Char} {v : ℚ} (hplain : Plain cs v) (htwo : 2 ≤ ds.length) (hds : ∀ c ∈ ds, c.isDigit = true) :
      Scientific (cs ++ 'e' :: '-' :: ds) (v / 10 ^ digitsValue ds) (-digitsValue ds)

theorem Scientific.mem (h : Scientific cs v e) : 'e' ∈ cs := by
  cases h <;> simp

theorem Scientific.not_plain (h : Scientific cs v e) {w : ℚ} : ¬ Plain cs w := by
  intro hplain
  exact hplain.notMem (by decide) (by decide) h.mem

theorem Scientific.exists_float? (h : Scientific cs v e) (negative : Bool) :
    ∃ r, float? ((if negative then ['-'] else []) ++ cs) = some (.ofMagnitude negative r) ∧ IsNearest v r := by
  cases h with
  | up hplain htwo hds =>
    have hne := List.ne_nil_of_length_pos (Nat.lt_of_lt_of_le Nat.two_pos htwo)
    have hexponent := exponent?_signed (.inl rfl) (.inl rfl) hne hds
    have hread := hplain.exists_float? (by simp) hexponent negative
    simpa using hread
  | down hplain htwo hds =>
    have hne := List.ne_nil_of_length_pos (Nat.lt_of_lt_of_le Nat.two_pos htwo)
    have hexponent := exponent?_signed (.inl rfl) (.inr rfl) hne hds
    have hread := hplain.exists_float? (by simp) hexponent negative
    simpa [div_eq_mul_inv] using hread

end AddressLines.Numeral
