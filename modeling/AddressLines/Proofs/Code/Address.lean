import AddressLines.Code.Address

/-!
# Addresses in order

Addresses are compared number by number, an address before those inside it. Different addresses are written
differently: every number ends in a point, and no digit is a point.
-/

namespace AddressLines

/-- The first separator ends the first piece of a text. -/
theorem Text.append_cons_inj {c : Char} {cs ds cs' ds' : List Char} (hcs : c ∉ cs) (hds : c ∉ ds)
    (h : cs ++ c :: cs' = ds ++ c :: ds') : cs = ds ∧ cs' = ds' := by
  have htake : ∀ {es es' : List Char}, c ∉ es → (es ++ c :: es').takeWhile (· != c) = es := by
    intro es es' hes
    have hall : ∀ d ∈ es, (d != c) = true := fun d hd => bne_iff_ne.mpr (ne_of_mem_of_not_mem hd hes)
    rw [List.takeWhile_append_of_pos hall]
    simp
  have hfirst : cs = ds := by rw [← htake hcs, h, htake hds]
  subst hfirst
  exact ⟨rfl, by simpa using h⟩

namespace Address

variable {a b : Address} {ns : List Nat}

theorem toList_text (a : Address) : a.text.toList = a.segments.flatMap fun n => Nat.toDigits 10 n ++ ['.'] := by
  simp [text, String.toList_join, List.flatMap_map, Nat.toString_eq_repr]

theorem notMem_toDigits {c : Char} (hc : c.isDigit = false) (n : Nat) : c ∉ Nat.toDigits 10 n := by
  intro h
  have hdigit := Nat.isDigit_of_mem_toDigits (by omega) (by omega) h
  rw [hc] at hdigit
  cases hdigit

theorem toDigits_injective {m n : Nat} (h : Nat.toDigits 10 m = Nat.toDigits 10 n) : m = n := by
  have hvalue := congrArg (Nat.ofDigitChars 10 · 0) h
  simpa using hvalue

theorem text_injective (h : a.text = b.text) : a = b := by
  obtain ⟨ms⟩ := a
  obtain ⟨ns⟩ := b
  replace h := congrArg String.toList h
  simp only [toList_text] at h
  induction ms generalizing ns with
  | nil =>
    cases ns with
    | nil => rfl
    | cons n ns => simp at h
  | cons m ms ih =>
    cases ns with
    | nil => simp at h
    | cons n ns =>
      simp only [List.flatMap_cons, List.append_assoc, List.singleton_append] at h
      obtain ⟨hdigits, hrest⟩ :=
        Text.append_cons_inj (notMem_toDigits (by decide) m) (notMem_toDigits (by decide) n) h
      obtain rfl := toDigits_injective hdigits
      obtain rfl : ms = ns := by simpa using ih ns hrest
      rfl

/-! ## One level down -/

/-- The address is one level below another. -/
def isBelow (a b : Address) : Bool :=
  !a.segments.isEmpty && a.segments.dropLast == b.segments

theorem isBelow_iff : a.isBelow b = true ↔ ∃ n, a.segments = b.segments ++ [n] := by
  rcases List.eq_nil_or_concat a.segments with h | ⟨ms, m, h⟩
  · simp [isBelow, h]
  · simp [isBelow, h]

theorem segments_lt_of_lt {m n : Nat} (h : m < n) (ms ms' : List Nat) : ns ++ m :: ms < ns ++ n :: ms' :=
  List.append_left_lt (List.cons_lt_cons_iff.mpr (.inl h))

theorem segments_lt_append (m : Nat) (ms : List Nat) : ns < ns ++ m :: ms := by
  have h : ns ++ [] < ns ++ m :: ms := List.append_left_lt (List.nil_lt_cons m ms)
  rwa [List.append_nil] at h

end Address

end AddressLines
