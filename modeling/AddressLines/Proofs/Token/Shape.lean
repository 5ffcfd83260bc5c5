import AddressLines.Proofs.Text.Lines
import AddressLines.Token.Scan

/-!
# What scanned tokens look like

A token is the text its kind takes at some place of the source. So an identifier is a letter or an underscore with
letters, digits and underscores behind it, and an operator is one out of the list.
-/

namespace AddressLines.Token

open Text

/-! ## Identifiers -/

/-- A letter or an underscore, then letters, digits and underscores. -/
def isIdentifier (x : String) : Bool :=
  x.toList.head?.any isNameStart && x.toList.tail.all isNamePart

theorem isNamePart_of_isNameStart {c : Char} (h : isNameStart c = true) : isNamePart c = true := by
  simp only [isNameStart, isNamePart, Char.isAlphanum, Bool.or_eq_true] at h ⊢
  exact h.imp_left .inl

theorem isNamePart_of_mem {x : String} (h : isIdentifier x = true) {c : Char} (hc : c ∈ x.toList) :
    isNamePart c = true := by
  simp only [isIdentifier, Bool.and_eq_true] at h
  cases hx : x.toList with
  | nil => simp [hx] at hc
  | cons d ds =>
    rw [hx] at h hc
    rcases List.mem_cons.mp hc with rfl | hc
    · exact isNamePart_of_isNameStart (by simpa using h.1)
    · exact List.all_eq_true.mp h.2 c hc

/-- A character that is no part of a name does not stand in one. -/
theorem notMem_of_isIdentifier {x : String} (h : isIdentifier x = true) {c : Char}
    (hc : isNamePart c = false) : c ∉ x.toList :=
  fun hmem => absurd (isNamePart_of_mem h hmem) (by simp [hc])

theorem isInline_of_isIdentifier {x : String} (h : isIdentifier x = true) : isInline x = true :=
  isInline_iff.mpr (notMem_of_isIdentifier h (by decide))

/-! ## Tokens -/

/-- An identifier is a name and an operator is one of the language. -/
structure IsShaped (t : Token) : Prop where
  identifier : t.kind = .identifier → isIdentifier t.text = true
  operator : t.kind = .operator → t.text ∈ operators

/-- Each token is what its kind takes at some place. -/
theorem lexeme_of_mem_scanFrom {file : String} {before : Option Char} {offset : Nat} {cs : List Char} {t : Token}
    (ht : t ∈ scanFrom file before offset cs) : ∃ (before : Option Char) (cs : List Char),
      lexeme? before cs = some t.kind ∧ t.text.toList = cs.take (t.kind.length before cs) := by
  fun_induction scanFrom file before offset cs with
  | case1 => simp at ht
  | case2 before offset c rest hnone ih => exact ih ht
  | case3 before offset c rest hkind n text stop tokens ih => exact ih ht
  | case4 before offset c rest kind hkind n text stop tokens hne ih =>
    rcases List.mem_cons.mp ht with rfl | ht
    · exact ⟨before, c :: rest, hkind, String.toList_ofList⟩
    · exact ih ht

theorem isIdentifier_of_nameLength {x : String} {cs : List Char} (hpos : 0 < nameLength cs)
    (hx : x.toList = cs.take (nameLength cs)) : isIdentifier x = true := by
  cases cs with
  | nil => simp [nameLength] at hpos
  | cons c cs =>
    by_cases hc : isNameStart c = true
    · have htake : cs.take (cs.takeWhile isNamePart).length = cs.takeWhile isNamePart :=
        (List.prefix_iff_eq_take.mp (List.takeWhile_prefix isNamePart)).symm
      rw [nameLength, if_pos hc, List.take_succ_cons, htake] at hx
      simp [isIdentifier, hx, hc]
    · simp [nameLength, hc] at hpos

theorem mem_operators_of_operatorLength {x : String} {cs : List Char} (hpos : 0 < operatorLength cs)
    (hx : x.toList = cs.take (operatorLength cs)) : x ∈ operators := by
  rw [operatorLength] at hpos hx
  cases hfind : operators.find? (·.toList.isPrefixOf cs) with
  | none => simp [hfind] at hpos
  | some op =>
    have hprefix : op.toList <+: cs := by simpa using List.find?_some hfind
    rw [hfind, Option.elim_some, ← String.length_toList, ← List.prefix_iff_eq_take.mp hprefix] at hx
    rw [String.toList_inj.mp hx]
    exact List.mem_of_find?_eq_some hfind

theorem isShaped_of_mem_scan {file source : String} {t : Token} (ht : t ∈ scan file source) : t.IsShaped := by
  obtain ⟨before, cs, hlexeme, htext⟩ := lexeme_of_mem_scanFrom ht
  have hpos := length_pos_of_lexeme? hlexeme
  constructor
  · intro hkind
    rw [hkind] at hpos htext
    exact isIdentifier_of_nameLength hpos htext
  · intro hkind
    rw [hkind] at hpos htext
    exact mem_operators_of_operatorLength hpos htext

theorem isInline_of_mem_operators {op : String} (h : op ∈ operators) : isInline op = true :=
  List.all_eq_true.mp (show operators.all isInline = true by decide) op h

end AddressLines.Token
