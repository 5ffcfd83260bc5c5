import AddressLines.Proofs.Grammar.Faults
import AddressLines.Proofs.Number.Numeral
import AddressLines.Proofs.Token.Words

/-!
# What literal tokens mean

A literal token is a numeral, a truth value or a text between quotes, and its form tells what it means
(`Literal.Means`). The forms are apart from each other: a text has one meaning at most, and reading a literal finds it.
Every literal token of a source text has one of the forms, so no literal of a source text is reported as bad.

A numeral may have a mark behind its first digits. With a point, or with an exponent mark and digits behind it, it is a
number; the mark of a base, and an exponent mark with nothing behind it, make it a text without its first and last
character.
-/

namespace AddressLines

open Binary64 Numeral

/-! ## Forms -/

namespace Literal

/-- The marks of a base. -/
def baseMarks : List Char :=
  ['x', 'o', 'b', 'X', 'O', 'B']

/-- The literal that a text means by its form. -/
inductive Means : List Char → Literal → Prop where
  /-- Digits, a number of 32 bits with its sign. -/
  | integer {ds : List Char} (hne : ds ≠ []) (hds : ∀ c ∈ ds, c.isDigit = true) (hfits : digitsValue ds ≤ 2147483647) :
      Means ds (.integer (digitsValue ds))
  /-- Digits, a larger number. -/
  | large {ds : List Char} {r : Nat} (hne : ds ≠ []) (hds : ∀ c ∈ ds, c.isDigit = true)
      (hlarge : 2147483647 < digitsValue ds) (hr : IsNearest (digitsValue ds) r) :
      Means ds (.float (.ofMagnitude false r))
  | truth (b : Bool) : Means (if b then "true" else "false").toList (.boolean b)
  /-- Digits, a point and perhaps digits. -/
  | point {ds part : List Char} {r : Nat} (hne : ds ≠ []) (hds : ∀ c ∈ ds, c.isDigit = true)
      (hpart : ∀ c ∈ part, c.isDigit = true) (hr : IsNearest (digitsValue (ds ++ part) / 10 ^ part.length) r) :
      Means (ds ++ '.' :: part) (.float (.ofMagnitude false r))
  /-- Digits, an exponent mark and digits. -/
  | exponent {ds part : List Char} {mark : Char} {r : Nat} (hne : ds ≠ []) (hds : ∀ c ∈ ds, c.isDigit = true)
      (hmark : mark = 'e' ∨ mark = 'E') (hsome : part ≠ []) (hpart : ∀ c ∈ part, c.isDigit = true)
      (hr : IsNearest (digitsValue ds * 10 ^ digitsValue part) r) :
      Means (ds ++ mark :: part) (.float (.ofMagnitude false r))
  /-- Digits, the mark of a base and perhaps digits. -/
  | base {ds part : List Char} {mark : Char} (hne : ds ≠ []) (hds : ∀ c ∈ ds, c.isDigit = true)
      (hmark : mark ∈ baseMarks) (hpart : ∀ c ∈ part, c.isDigit = true) :
      Means (ds ++ mark :: part) (.string (String.ofList (ds ++ mark :: part).tail.dropLast))
  /-- Digits and an exponent mark. -/
  | bare {ds : List Char} {mark : Char} (hne : ds ≠ []) (hds : ∀ c ∈ ds, c.isDigit = true)
      (hmark : mark = 'e' ∨ mark = 'E') : Means (ds ++ [mark]) (.string (String.ofList ds.tail))
  | quoted {quote : Char} {cs : List Char} (hquote : quote = '"' ∨ quote = '\'') :
      Means (quote :: (cs ++ [quote])) (.string (String.ofList cs))

/-! ## Reading a literal -/

variable {cs ds part : List Char}

theorem ofText?_integer {n : Int} (hinteger : integer? cs = some n) :
    ofText? (String.ofList cs) = some (.integer n) := by
  unfold ofText?
  simp only [String.toList_ofList, hinteger]

/-- What is no whole number and no truth value is a number if it is read as one. -/
theorem ofText?_float (hinteger : integer? cs = none) (hword : String.ofList cs ∉ Token.booleans) {x : Binary64}
    (hfloat : float? cs = some x) : ofText? (String.ofList cs) = some (.float x) := by
  obtain ⟨htrue, hfalse⟩ : String.ofList cs ≠ "true" ∧ String.ofList cs ≠ "false" := by
    simpa [Token.booleans] using hword
  unfold ofText?
  simp only [String.toList_ofList, hinteger, htrue, hfalse, if_false, hfloat]

/-- What is no number and no truth value is the text between its first and last character. -/
theorem ofText?_string (hinteger : integer? cs = none) (hword : String.ofList cs ∉ Token.booleans)
    (hfloat : float? cs = none) (hlong : 1 < cs.length) :
    ofText? (String.ofList cs) = some (.string (String.ofList cs.tail.dropLast)) := by
  obtain ⟨htrue, hfalse⟩ : String.ofList cs ≠ "true" ∧ String.ofList cs ≠ "false" := by
    simpa [Token.booleans] using hword
  unfold ofText?
  simp only [String.toList_ofList, hinteger, htrue, hfalse, if_false, hfloat, hlong, if_true, inside]

/-- A truth value starts with one of two letters. -/
theorem notMem_booleans {c : Char} (hc : c ≠ 't' ∧ c ≠ 'f') (cs : List Char) :
    String.ofList (c :: cs) ∉ Token.booleans := by
  intro hmem
  have hstarts : ∀ w ∈ Token.booleans, w.toList.head? = some 't' ∨ w.toList.head? = some 'f' := by decide
  have hletter := hstarts _ hmem
  simp [hc] at hletter

theorem digits_notMem_booleans (hne : ds ≠ []) (hds : ∀ c ∈ ds, c.isDigit = true) (rest : List Char) :
    String.ofList (ds ++ rest) ∉ Token.booleans := by
  obtain ⟨c, cs, rfl⟩ := List.exists_cons_of_ne_nil hne
  have hc := hds c (List.mem_cons_self ..)
  refine notMem_booleans ⟨?_, ?_⟩ _
  · rintro rfl
    exact absurd hc (by decide)
  · rintro rfl
    exact absurd hc (by decide)

/-- Neither a number nor a truth value starts with a quote. -/
theorem ofText?_quoted {quote : Char} (hquote : quote = '"' ∨ quote = '\'') (cs : List Char) :
    ofText? (String.ofList (quote :: (cs ++ [quote]))) = some (.string (String.ofList cs)) := by
  have hword : String.ofList (quote :: (cs ++ [quote])) ∉ Token.booleans :=
    notMem_booleans (by rcases hquote with rfl | rfl <;> decide) _
  have hinteger : integer? (quote :: (cs ++ [quote])) = none := by
    rcases hquote with rfl | rfl
    · rfl
    · rfl
  have hread := ofText?_string hinteger hword (float?_quote hquote _) (by simp)
  simpa using hread

/-- Neither the mark of a base nor an exponent mark goes on with the digits. -/
theorem isDigit_mark {mark : Char} (hmark : mark = 'e' ∨ mark = 'E' ∨ mark ∈ baseMarks) :
    mark.isDigit = false ∧ mark ≠ '.' := by
  have hmarks : ∀ m ∈ 'e' :: 'E' :: baseMarks, m.isDigit = false ∧ m ≠ '.' := List.all_iff_forall_prop.mp (by decide)
  exact hmarks mark (by simpa using hmark)

/-- A number that is not a whole one is read as the float nearest to it. -/
theorem ofText?_nearest {v : ℚ} {r : Nat} (hinteger : integer? cs = none) (hword : String.ofList cs ∉ Token.booleans)
    (hread : ∃ r', float? cs = some (.ofMagnitude false r') ∧ IsNearest v r') (hr : IsNearest v r) :
    ofText? (String.ofList cs) = some (.float (.ofMagnitude false r)) := by
  obtain ⟨r', hfloat, hr'⟩ := hread
  rw [hr.eq hr']
  exact ofText?_float hinteger hword hfloat

/-- Digits before a mark that starts no exponent are not read as a number. -/
theorem ofText?_mark {mark : Char} (hne : ds ≠ []) (hds : ∀ c ∈ ds, c.isDigit = true)
    (hnot : mark.isDigit = false ∧ mark ≠ '.') (hexponent : exponent? (mark :: part) = none) :
    ofText? (String.ofList (ds ++ mark :: part)) =
      some (.string (String.ofList (ds ++ mark :: part).tail.dropLast)) := by
  have hlong : 1 < (ds ++ mark :: part).length := by
    have hpos := List.length_pos_of_ne_nil hne
    rw [List.length_append, List.length_cons]
    omega
  exact ofText?_string (integer?_mark hne hds hnot.1 part) (digits_notMem_booleans hne hds _)
    (float?_mark hne hds hnot hexponent) hlong

/-- A text means one literal at most, and that is what it is read as. -/
theorem Means.ofText?_eq {l : Literal} (h : Means cs l) : ofText? (String.ofList cs) = some l := by
  cases h with
  | integer hne hds hfits =>
    refine ofText?_integer ?_
    rw [integer?_digits hne hds, if_pos hfits]
  | large hne hds hlarge hr =>
    have hinteger : integer? cs = none := by
      rw [integer?_digits hne hds, if_neg (Nat.not_le_of_gt hlarge)]
    have hword := digits_notMem_booleans hne hds []
    rw [List.append_nil] at hword
    exact ofText?_nearest hinteger hword ((Plain.whole hne hds).exists_float?_alone false) hr
  | truth b =>
    cases b with
    | false => decide
    | true => decide
  | @point ds part r hne hds hpart hr =>
    have hinteger : integer? (ds ++ '.' :: part) = none := integer?_mark hne hds (by decide) part
    have hword := digits_notMem_booleans hne hds ('.' :: part)
    exact ofText?_nearest hinteger hword ((Plain.point hne hds hpart).exists_float?_alone false) hr
  | @exponent ds part mark r hne hds hmark hsome hpart hr =>
    have hnot := isDigit_mark (hmark.imp_right .inl)
    have hexponent : exponent? (mark :: part) = some (digitsValue part : Int) := by
      rw [exponent?, if_pos hmark, signed?_digits hsome hpart]
    have hread := (Plain.whole hne hds).exists_float? (by simp [hnot]) hexponent false
    rw [zpow_natCast] at hread
    have hword := digits_notMem_booleans hne hds (mark :: part)
    exact ofText?_nearest (integer?_mark hne hds hnot.1 part) hword hread hr
  | @base ds part mark hne hds hmark hpart =>
    have hexponent : exponent? (mark :: part) = none := by
      have hmarks : ∀ m ∈ baseMarks, ¬ (m = 'e' ∨ m = 'E') := List.all_iff_forall_prop.mp (by decide)
      rw [exponent?, if_neg (hmarks mark hmark)]
    exact ofText?_mark hne hds (isDigit_mark (.inr (.inr hmark))) hexponent
  | @bare ds mark hne hds hmark =>
    have hexponent : exponent? [mark] = none := by
      rw [exponent?, if_pos hmark]
      rfl
    have hread := ofText?_mark hne hds (isDigit_mark (hmark.imp_right .inl)) hexponent
    rwa [List.tail_append_of_ne_nil hne, List.dropLast_concat] at hread
  | quoted hquote => exact ofText?_quoted hquote _

/-! ## Every spelling has a meaning -/

theorem exists_means_digits (hne : ds ≠ []) (hds : ∀ c ∈ ds, c.isDigit = true) : ∃ l, Means ds l := by
  by_cases hfits : digitsValue ds ≤ 2147483647
  · exact ⟨_, .integer hne hds hfits⟩
  · obtain ⟨r, -, hr⟩ := (Plain.whole hne hds).exists_float?_alone false
    exact ⟨_, .large hne hds (Nat.lt_of_not_le hfits) hr⟩

theorem exists_means_mark {mark : Char} (hne : ds ≠ []) (hds : ∀ c ∈ ds, c.isDigit = true)
    (hmark : Token.isNumeralMark mark = true) (hpart : ∀ c ∈ part, c.isDigit = true) :
    ∃ l, Means (ds ++ mark :: part) l := by
  have hkinds : mark = '.' ∨ (mark = 'e' ∨ mark = 'E') ∨ mark ∈ baseMarks := by
    have hmarks : ∀ m ∈ ['.', 'e', 'x', 'o', 'b', 'E', 'X', 'O', 'B'], m = '.' ∨ (m = 'e' ∨ m = 'E') ∨ m ∈ baseMarks :=
      List.all_iff_forall_prop.mp (by decide)
    exact hmarks mark (by simpa [Token.isNumeralMark] using hmark)
  rcases hkinds with rfl | hexponent | hbase
  · obtain ⟨r, -, hr⟩ := (Plain.point hne hds hpart).exists_float?_alone false
    exact ⟨_, .point hne hds hpart hr⟩
  · by_cases hnone : part = []
    · rw [hnone]
      exact ⟨_, .bare hne hds hexponent⟩
    · have hr := isNearest_nearestDecimal (digitsValue ds) (digitsValue part)
      rw [zpow_natCast] at hr
      exact ⟨_, .exponent hne hds hexponent hnone hpart hr⟩
  · exact ⟨_, .base hne hds hbase hpart⟩

theorem exists_means {text : String} (h : Token.Spells .literal text) : ∃ l, Means text.toList l := by
  cases h with
  | @numeral whole mark fraction hne hwhole hone hmark hfraction =>
    rw [String.toList_ofList]
    cases mark with
    | nil =>
      refine exists_means_digits (by simp [hne]) fun c hc => ?_
      rcases List.mem_append.mp hc with hc | hc
      · exact hwhole c hc
      · exact hfraction c hc
    | cons m ms =>
      obtain rfl : ms = [] := List.length_eq_zero_iff.mp (Nat.le_zero.mp (Nat.le_of_succ_le_succ hone))
      exact exists_means_mark hne hwhole (hmark m (List.mem_cons_self ..)) hfraction
  | boolean hw =>
    obtain rfl | rfl : text = "true" ∨ text = "false" := by simpa [Token.booleans] using hw
    · exact ⟨_, .truth true⟩
    · exact ⟨_, .truth false⟩
  | quoted hbody =>
    rw [String.toList_ofList]
    exact ⟨_, .quoted (.inl rfl)⟩
  | @character c hc =>
    rw [String.toList_ofList]
    exact ⟨_, @Means.quoted '\'' [c] (.inr rfl)⟩
  | @escaped c hc =>
    rw [String.toList_ofList]
    exact ⟨_, @Means.quoted '\'' ['\\', c] (.inr rfl)⟩

end Literal

/-! ## Literal tokens are spelled so -/

namespace Token

open Text

variable {before : Option Char} {cs : List Char}

/-- A run, the character that ends it and some text behind. -/
theorem take_behind_run {p : Char → Bool} {c : Char} {rest : List Char}
    (hrest : cs.drop (cs.takeWhile p).length = c :: rest) (n : Nat) :
    cs.take ((cs.takeWhile p).length + (n + 1)) = cs.takeWhile p ++ c :: rest.take n := by
  rw [List.take_add, take_run, hrest, List.take_succ_cons]

theorem spells_quoted (hpos : 0 < quotedLength cs) :
    Spells .literal (String.ofList (('"' :: cs).take (quotedLength cs))) := by
  simp only [quotedLength] at hpos ⊢
  split_ifs at hpos ⊢ with hclosed
  · -- the run of other characters ends at the closing quote
    have hbody : '"' ∉ cs.takeWhile (· != '"') := by
      intro hmem
      have hother := List.all_eq_true.mp List.all_takeWhile _ hmem
      simp at hother
    obtain ⟨q, rest, hrest⟩ := List.exists_cons_of_length_pos (List.length_drop ▸ Nat.sub_pos_of_lt hclosed)
    obtain rfl : q = '"' := by simpa using @run_ends cs (· != '"') q (by rw [hrest]; rfl)
    rw [List.take_succ_cons, take_behind_run hrest, List.take_zero]
    exact .quoted hbody
  · exact absurd hpos (Nat.lt_irrefl 0)

theorem spells_character (hpos : 0 < characterLength cs) :
    Spells .literal (String.ofList (('\'' :: cs).take (characterLength cs))) := by
  revert hpos
  fun_cases characterLength cs with
  | case1 c rest hfeed => simp
  | case2 c rest hfeed => exact fun _ => .escaped (by simpa using hfeed)
  | case3 c rest _ hfeed => simp
  | case4 c rest _ hfeed => exact fun _ => .character (by simpa using hfeed)
  | case5 => simp

theorem spells_numeral {c : Char} (hc : c.isDigit = true) (cs : List Char) :
    Spells .literal (String.ofList ((c :: cs).take (numeralLength (c :: cs)))) := by
  have hdigits : ∀ ds : List Char, ∀ x ∈ ds.takeWhile Char.isDigit, x.isDigit = true :=
    fun ds => List.all_eq_true.mp List.all_takeWhile
  have hne : (c :: cs).takeWhile Char.isDigit ≠ [] := by simp [hc]
  have hplain := @Spells.numeral _ [] [] hne (hdigits _) (by simp) (by simp) (by simp)
  rw [List.append_nil, List.append_nil] at hplain
  simp only [numeralLength]
  split
  · next mark rest hrest =>
    split_ifs with hmark
    · rw [Nat.add_assoc, Nat.add_comm 1, take_behind_run hrest, take_run]
      exact @Spells.numeral _ [mark] _ hne (hdigits _) (by simp) (by simpa using hmark) (hdigits _)
    · rw [take_run]
      exact hplain
  · rw [take_run]
    exact hplain

theorem spells_literal (hpos : 0 < literalLength before cs) :
    Spells .literal (String.ofList (cs.take (literalLength before cs))) := by
  revert hpos
  fun_cases literalLength before cs with
  | case1 => simp
  | case2 cs => exact spells_quoted
  | case3 cs => exact spells_character
  | case4 c cs _ _ hdigit => exact fun _ => spells_numeral hdigit cs
  | case5 c cs _ _ _ => exact fun hpos => .boolean (wordLength_alone hpos).2.2

theorem spells_of_mem_scan {file source : String} {t : Token} (ht : t ∈ scan file source)
    (hkind : t.kind = .literal) : Spells .literal t.text := by
  obtain ⟨before, cs, hlexeme, htext⟩ := lexeme_of_mem_scanFrom ht
  have hpos := length_pos_of_lexeme? hlexeme
  rw [hkind, Kind.length] at hpos htext
  have hspells := spells_literal hpos
  rw [← htext, String.ofList_toList] at hspells
  exact hspells

/-- A literal token of a source text has a meaning, and it is read so. -/
theorem exists_means_of_mem_scan {file source : String} {t : Token} (ht : t ∈ scan file source)
    (hkind : t.kind = .literal) : ∃ l, Literal.Means t.text.toList l ∧ Literal.ofText? t.text = some l := by
  obtain ⟨l, hl⟩ := Literal.exists_means (spells_of_mem_scan ht hkind)
  have hread := hl.ofText?_eq
  rw [String.ofList_toList] at hread
  exact ⟨l, hl, hread⟩

theorem isSome_literal_of_mem_scan {file source : String} {t : Token} (ht : t ∈ scan file source)
    (hkind : t.kind = .literal) : (Literal.ofText? t.text).isSome = true := by
  obtain ⟨l, -, hread⟩ := exists_means_of_mem_scan ht hkind
  rw [hread]
  rfl

theorem literal_eq_ok_iff {t : Token} {l : Literal} : t.literal = .ok l ↔ Literal.ofText? t.text = some l := by
  cases hvalue : Literal.ofText? t.text with
  | none => simp [literal_of_none hvalue]
  | some l' => simp [literal_of_some hvalue]

end Token

theorem Reader.FaultAt.cause_ne {r : Reader} {us : List Token} {f : Fault} {file source : String} (h : r.FaultAt us f)
    (hus : us <:+ Token.scan file source) (text : String) : f.cause ≠ .badLiteral text := by
  cases h with
  | unexpected => exact Fault.Cause.noConfusion
  | wrongKind => exact Fault.Cause.noConfusion
  | @badLiteral t us hkind hnone =>
    have hvalue := Token.isSome_literal_of_mem_scan (hus.subset (List.mem_cons_self ..)) hkind
    rw [hnone] at hvalue
    exact absurd hvalue (by decide)

/-- Every literal token of a source text is read as what its form means, so reading a source text reports no literal
as bad. -/
theorem Token.scan_literals (file source : String) :
    (∀ t ∈ scan file source, t.kind = .literal →
      (∃ l, t.literal = .ok l) ∧ ∀ l, t.literal = .ok l ↔ Literal.Means t.text.toList l) ∧
    ∀ f ∈ (Reading.ofTokens (scan file source)).program.faults, ∀ text, f.cause ≠ .badLiteral text := by
  constructor
  · intro t ht hkind
    obtain ⟨l, hl, hread⟩ := exists_means_of_mem_scan ht hkind
    refine ⟨⟨l, literal_eq_ok_iff.mpr hread⟩, fun l' => ⟨fun hl' => ?_, fun hl' => ?_⟩⟩
    · rw [literal_eq_ok_iff, hread] at hl'
      exact Option.some.inj hl' ▸ hl
    · rw [literal_eq_ok_iff, ← hl'.ofText?_eq, String.ofList_toList]
  · intro f hf
    obtain ⟨rest, hlocated⟩ := Reading.located (scan file source)
    obtain ⟨us, hus, hfault⟩ := hlocated.mem hf
    exact hfault.cause_ne hus

end AddressLines
