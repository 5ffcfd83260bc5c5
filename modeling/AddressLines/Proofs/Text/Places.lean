import AddressLines.Proofs.Text.Lines
import Mathlib.Data.List.Basic

/-!
# Places in a text

A byte offset inside a text lies in one line: text that ends with a line feed stands before the line, and the line
itself holds a line feed at most at its end (`Place.Cuts`). Looking an offset up finds that line, and finds none exactly
for an offset behind the text.

The lines of a text make it up again, and each of them but the last ends with a line feed. So the lines before a place
hold one line feed each, and its number counts them.
-/

namespace AddressLines.Text

/-- The place is at this offset of a text that has `pre` before the line and `post` behind it. -/
structure Place.Cuts (p : Place) (cs : List Char) (offset : Nat) (pre post : List Char) : Prop where
  text : cs = pre ++ p.line ++ post
  offset : byteLength pre + p.column = offset
  inside : p.column < byteLength p.line
  starts : pre = [] ∨ pre.getLast? = some '\n'
  inner : '\n' ∉ p.line.dropLast
  ends : p.line.getLast? = some '\n' ∨ post = []
  number : p.number = pre.count '\n' + 1

variable {cs l : List Char} {before after : List (List Char)} {number offset : Nat} {p : Place}

/-! ## The lines of a text -/

theorem flatten_lines (cs : List Char) : (lines cs).flatten = cs := by
  fun_induction lines cs with
  | case1 => rfl
  | case2 cs ih => rw [List.flatten_cons, ih, List.singleton_append]
  | case3 c cs hc hnil ih =>
    rw [hnil, List.flatten_nil] at ih
    rw [← ih, List.flatten_cons, List.flatten_nil, List.append_nil]
  | case4 c cs hc l ls hcons ih =>
    rw [hcons, List.flatten_cons] at ih
    rw [List.flatten_cons, List.cons_append, ih]

/-- A line with another one behind it ends with a line feed. -/
theorem getLast?_of_lines (h : lines cs = before ++ l :: after) (hafter : after ≠ []) : l.getLast? = some '\n' := by
  fun_induction lines cs generalizing before l with
  | case1 => simp at h
  | case2 cs ih =>
    cases before with
    | nil =>
      obtain ⟨rfl, -⟩ := List.cons.inj h
      rfl
    | cons b before => exact ih (List.cons.inj h).2
  | case3 c cs hc hnil ih =>
    cases before with
    | nil => exact absurd (List.cons.inj h).2.symm hafter
    | cons b before => simp at h
  | case4 c cs hc l' ls hcons ih =>
    cases before with
    | nil =>
      obtain ⟨rfl, rfl⟩ := List.cons.inj h
      have hlast : l'.getLast? = some '\n' := @ih l' [] hcons
      rw [List.getLast?_cons, hlast]
      rfl
    | cons b before =>
      obtain ⟨rfl, hls⟩ := List.cons.inj h
      exact @ih l (l' :: before) (hcons.trans (congrArg (l' :: ·) hls))

/-- A line that ends with a line feed holds just that one. -/
theorem count_of_mem_lines (hl : l ∈ lines cs) (hlast : l.getLast? = some '\n') : l.count '\n' = 1 := by
  have hsplit : l.dropLast ++ ['\n'] = l := List.dropLast_append_getLast? '\n' hlast
  rw [← hsplit, List.count_append, List.count_eq_zero.mpr (notMem_dropLast_of_mem_lines hl), List.count_singleton_self]

theorem count_flatten (h : ∀ l ∈ before, l.count '\n' = 1) : before.flatten.count '\n' = before.length := by
  induction before with
  | nil => rfl
  | cons b before ih =>
    obtain ⟨hb, hbefore⟩ := List.forall_mem_cons.mp h
    rw [List.flatten_cons, List.count_append, hb, ih hbefore, List.length_cons, Nat.add_comm]

theorem getLast?_flatten (h : ∀ l ∈ before, l.getLast? = some '\n') :
    before.flatten = [] ∨ before.flatten.getLast? = some '\n' := by
  rcases List.eq_nil_or_concat before with rfl | ⟨init, b, rfl⟩
  · exact .inl rfl
  · have hb : b.getLast? = some '\n' := h b (by simp)
    right
    rw [List.concat_eq_append, List.flatten_append, List.flatten_singleton, List.getLast?_append, hb]
    rfl

/-! ## Looking up an offset -/

/-- The line that is found is the one that the offset reaches, behind lines that lie before it. -/
theorem locate_eq_some {ls : List (List Char)} (h : locate number offset ls = some p) :
    ∃ before after, ls = before ++ p.line :: after ∧ p.number = number + before.length ∧
      byteLength before.flatten + p.column = offset ∧ p.column < byteLength p.line := by
  induction ls generalizing number offset with
  | nil => simp [locate] at h
  | cons l ls ih =>
    rw [locate] at h
    by_cases hin : offset < byteLength l
    · rw [if_pos hin] at h
      obtain rfl : ⟨number, l, offset⟩ = p := by simpa using h
      exact ⟨[], ls, rfl, rfl, Nat.zero_add _, hin⟩
    · rw [if_neg hin] at h
      obtain ⟨before, after, rfl, hnumber, hoffset, hinside⟩ := ih h
      refine ⟨l :: before, after, rfl, ?_, ?_, hinside⟩
      · rw [hnumber, List.length_cons]
        omega
      · rw [List.flatten_cons, byteLength_append]
        omega

theorem locate_eq_none_iff {ls : List (List Char)} :
    locate number offset ls = none ↔ byteLength ls.flatten ≤ offset := by
  induction ls generalizing number offset with
  | nil => simp [locate]
  | cons l ls ih =>
    rw [locate, List.flatten_cons, byteLength_append]
    by_cases hin : offset < byteLength l
    · rw [if_pos hin]
      simp only [reduceCtorEq, false_iff]
      omega
    · rw [if_neg hin, ih]
      omega

/-- What is found in the lines of a text is cut out of the text. -/
theorem cuts_of_locate (h : locate 1 offset (lines cs) = some p) : ∃ pre post, p.Cuts cs offset pre post := by
  obtain ⟨before, after, hlines, hnumber, hoffset, hinside⟩ := locate_eq_some h
  have hmem : ∀ l ∈ before, l ∈ lines cs := by
    intro l hl
    rw [hlines]
    exact List.mem_append_left _ hl
  -- every line before the one that is found has another one behind it
  have hended : ∀ l ∈ before, l.getLast? = some '\n' := by
    intro l hl
    obtain ⟨first, rest, rfl⟩ := List.append_of_mem hl
    rw [List.append_assoc] at hlines
    exact getLast?_of_lines hlines (by simp)
  have hcount := count_flatten fun l hl => count_of_mem_lines (hmem l hl) (hended l hl)
  refine ⟨before.flatten, after.flatten, ?_, hoffset, hinside, getLast?_flatten hended, ?_, ?_, ?_⟩
  · rw [← flatten_lines cs, hlines, List.flatten_append, List.flatten_cons, List.append_assoc]
  · exact notMem_dropLast_of_mem_lines (hlines ▸ List.mem_append_right _ (List.mem_cons_self ..))
  · cases after with
    | nil => exact .inr rfl
    | cons next after => exact .inl (getLast?_of_lines hlines (by simp))
  · rw [hnumber, hcount, Nat.add_comm]

/-! ## One place for an offset -/

theorem Place.Cuts.text_eq {q : Place} {pre post pre' post' : List Char} (h : p.Cuts cs offset pre post)
    (h' : q.Cuts cs offset pre' post') : pre ++ (p.line ++ post) = pre' ++ (q.line ++ post') := by
  rw [← List.append_assoc, ← h.text, h'.text, List.append_assoc]

/-- Of two cuts of a text at one offset, neither has the longer text before its line: the line feed at the end of
that text would stand inside the line of the other cut. -/
theorem Place.Cuts.pre_le {q : Place} {pre post pre' post' : List Char} (h : p.Cuts cs offset pre post)
    (h' : q.Cuts cs offset pre' post') : pre'.length ≤ pre.length := by
  by_contra hlt
  obtain ⟨mid, rfl, hmid⟩ : ∃ mid, pre' = pre ++ mid ∧ p.line ++ post = mid ++ (q.line ++ post') := by
    rcases List.append_eq_append_iff.mp (h.text_eq h') with ⟨mid, hpre, hrest⟩ | ⟨mid, hpre, -⟩
    · exact ⟨mid, hpre, hrest⟩
    · rw [hpre, List.length_append] at hlt
      omega
  have hne : mid ≠ [] := by
    rintro rfl
    simp at hlt
  have hfeed : mid.getLast? = some '\n' := by
    rcases h'.starts with hnil | hlast
    · simp [hne] at hnil
    · rwa [List.getLast?_append_of_ne_nil _ hne] at hlast
  have hbytes : byteLength mid < byteLength p.line := by
    have hp := h.offset
    have hq := h'.offset
    have hinside := h.inside
    rw [byteLength_append] at hq
    omega
  obtain ⟨more, hline⟩ : ∃ more, p.line = mid ++ more := by
    rcases List.append_eq_append_iff.mp hmid with ⟨more, hmore, -⟩ | ⟨more, hmore, -⟩
    · rw [hmore, byteLength_append] at hbytes
      omega
    · exact ⟨more, hmore⟩
  have hmore : more ≠ [] := by
    rintro rfl
    rw [hline, List.append_nil] at hbytes
    omega
  apply h.inner
  rw [hline, List.dropLast_append_of_ne_nil hmore]
  exact List.mem_append_left _ (List.mem_of_getLast? hfeed)

/-- Of two lines at the front of one text, neither is the longer one: the other has a line feed at its end. -/
theorem Place.Cuts.line_le {q : Place} {pre post post' : List Char} (h : p.Cuts cs offset pre post)
    (h' : q.Cuts cs offset pre post') : q.line.length ≤ p.line.length := by
  by_contra hlt
  have htext : p.line ++ post = q.line ++ post' := List.append_cancel_left (h.text_eq h')
  obtain ⟨more, hline, hpost⟩ : ∃ more, q.line = p.line ++ more ∧ post = more ++ post' := by
    rcases List.append_eq_append_iff.mp htext with ⟨more, hmore, hrest⟩ | ⟨more, hmore, -⟩
    · exact ⟨more, hmore, hrest⟩
    · rw [hmore, List.length_append] at hlt
      omega
  have hmore : more ≠ [] := by
    rintro rfl
    simp [hline] at hlt
  have hfeed : p.line.getLast? = some '\n' := by
    refine h.ends.resolve_right ?_
    rintro rfl
    simp [hmore] at hpost
  apply h'.inner
  rw [hline, List.dropLast_append_of_ne_nil hmore]
  exact List.mem_append_left _ (List.mem_of_getLast? hfeed)

theorem Place.Cuts.eq {q : Place} {pre post pre' post' : List Char} (h : p.Cuts cs offset pre post)
    (h' : q.Cuts cs offset pre' post') : p = q := by
  obtain ⟨rfl, hrest⟩ := List.append_inj (h.text_eq h') (Nat.le_antisymm (h'.pre_le h) (h.pre_le h'))
  obtain ⟨hline, -⟩ := List.append_inj hrest (Nat.le_antisymm (h'.line_le h) (h.line_le h'))
  have hnumber : p.number = q.number := h.number.trans h'.number.symm
  have hcolumn : p.column = q.column := Nat.add_left_cancel (h.offset.trans h'.offset.symm)
  cases p
  cases q
  simp_all

/-- Looking up an offset finds nothing exactly if it lies behind the text. Otherwise it finds the one place at which
the text can be cut into what ends with a line feed, a line with this offset in it and what follows the line; the
place is numbered by the line feeds before its line. -/
theorem placeAt_eq_some_iff_cuts (text : String) (offset : Nat) :
    (placeAt? text offset = none ↔ text.utf8ByteSize ≤ offset) ∧
      ∀ p, placeAt? text offset = some p ↔ ∃ pre post, p.Cuts text.toList offset pre post := by
  have hnone : placeAt? text offset = none ↔ text.utf8ByteSize ≤ offset := by
    rw [placeAt?, locate_eq_none_iff, flatten_lines, ← utf8ByteSize_ofList, String.ofList_toList]
  refine ⟨hnone, fun p => ⟨cuts_of_locate, ?_⟩⟩
  rintro ⟨pre, post, hcuts⟩
  have hsome : placeAt? text offset ≠ none := by
    rw [Ne, hnone, ← String.ofList_toList (s := text), utf8ByteSize_ofList, hcuts.text, byteLength_append,
      byteLength_append]
    have hoffset := hcuts.offset
    have hinside := hcuts.inside
    omega
  obtain ⟨q, hq⟩ := Option.ne_none_iff_exists'.mp hsome
  obtain ⟨pre', post', hcuts'⟩ := cuts_of_locate hq
  rw [hq, hcuts.eq hcuts']

/-- An offset inside a character of two bytes, in an empty line and in a last line without a line feed. -/
example : (placeAt? "aé\n\nb" 2, placeAt? "aé\n\nb" 4, placeAt? "aé\n\nb" 5, placeAt? "aé\n\nb" 6) =
    (some ⟨1, ['a', 'é', '\n'], 2⟩, some ⟨2, ['\n'], 0⟩, some ⟨3, ['b'], 0⟩, none) := by
  decide +kernel

end AddressLines.Text
