import AddressLines.Number.Written

/-!
# What numbers are written with

The text of a number holds digits, signs, a point, the letter of an exponent, or the letters of one of the words for
what has no digits. So it holds no line feed and no quote.
-/

namespace AddressLines

/-- A character that the text of a number may hold. -/
def Numeral.isMark (c : Char) : Bool :=
  c.isDigit || ['+', '-', '.', 'e', 'I', 'N', 'a', 'f', 'n'].contains c

open Numeral

theorem Numeral.isMark_of_isDigit {c : Char} (h : c.isDigit = true) : isMark c = true := by
  rw [isMark, h, Bool.true_or]

theorem Numeral.isMark_of_mem_repr {n : Int} : ∀ c ∈ n.repr.toList, isMark c = true := by
  have hnat : ∀ (m : Nat), ∀ c ∈ m.repr.toList, isMark c = true := by
    intro m c hc
    exact isMark_of_isDigit (@Nat.isDigit_of_mem_toDigits 10 m c (by decide) (by decide) (by simpa using hc))
  cases n with
  | ofNat m => exact hnat m
  | negSucc m =>
    have hneg : (Int.negSucc m).repr = "-" ++ (m + 1).repr := rfl
    rw [hneg, String.toList_append, List.forall_mem_append]
    exact ⟨List.all_eq_true.mp (by decide), hnat (m + 1)⟩

namespace Decimal

variable {d : Decimal} {ds : List Char}

theorem isDigit_of_mem_digitList {c : Char} (hc : c ∈ d.digitList) : c.isDigit = true := by
  have hmem : c ∈ (Nat.toDigits 10 d.digits).reverse := (List.dropWhile_sublist _).mem (List.mem_reverse.mp hc)
  exact Nat.isDigit_of_mem_toDigits (by decide) (by decide) (List.mem_reverse.mp hmem)

theorem isDigit_of_mem_twoDigits {n : Nat} {c : Char} (hc : c ∈ twoDigits n) : c.isDigit = true := by
  have hdigits : ∀ x ∈ Nat.toDigits 10 n, x.isDigit = true := fun _ =>
    Nat.isDigit_of_mem_toDigits (by decide) (by decide)
  rw [twoDigits] at hc
  split at hc
  · rcases List.mem_cons.mp hc with rfl | hmem
    · rfl
    · exact hdigits c hmem
  · exact hdigits c hc

theorem isMark_of_mem_placePoint (hds : ∀ c ∈ ds, isMark c = true) (n : Nat) :
    ∀ c ∈ placePoint n ds, isMark c = true := by
  rw [placePoint]
  split
  · rw [List.forall_mem_append]
    refine ⟨hds, fun c hc => ?_⟩
    rw [List.eq_of_mem_replicate hc]
    rfl
  · rw [List.forall_mem_append, List.forall_mem_cons]
    exact ⟨fun c hc => hds c (List.mem_of_mem_take hc), rfl, fun c hc => hds c (List.mem_of_mem_drop hc)⟩

theorem isMark_of_mem_text (d : Decimal) : ∀ c ∈ d.text, isMark c = true := by
  have hdigits : ∀ c ∈ d.digitList, isMark c = true := fun c hc => isMark_of_isDigit (isDigit_of_mem_digitList hc)
  simp only [text, positional, scientific]
  split
  · split
    · exact isMark_of_mem_placePoint hdigits _
    · rw [List.cons_append, List.cons_append, List.forall_mem_cons, List.forall_mem_cons, List.forall_mem_append]
      refine ⟨rfl, rfl, fun c hc => ?_, hdigits⟩
      rw [List.eq_of_mem_replicate hc]
      rfl
  · rw [List.forall_mem_append, List.forall_mem_cons, List.forall_mem_cons]
    refine ⟨isMark_of_mem_placePoint hdigits 1, rfl, ?_, fun c hc => isMark_of_isDigit (isDigit_of_mem_twoDigits hc)⟩
    split
    · rfl
    · rfl

end Decimal

theorem Binary64.isMark_of_mem_text (x : Binary64) : ∀ c ∈ x.text.toList, isMark c = true := by
  have hdecimal := (Decimal.shortest x.magnitude).isMark_of_mem_text
  have hzero : ∀ c ∈ ['0'], isMark c = true := List.forall_mem_singleton.mpr rfl
  have hminus : isMark '-' = true := rfl
  rw [text]
  split
  · exact List.all_eq_true.mp (by decide)
  · split
    · split
      · exact List.all_eq_true.mp (by decide)
      · exact List.all_eq_true.mp (by decide)
    · rw [String.toList_ofList]
      split
      · rw [List.forall_mem_cons]
        refine ⟨hminus, ?_⟩
        split
        · exact hzero
        · exact hdecimal
      · split
        · exact hzero
        · exact hdecimal

end AddressLines
