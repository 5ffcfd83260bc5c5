import AddressLines.Text.Line

/-!
# Texts put together from lines

Pieces of text, each with a line feed behind it, are the lines of the text they make up exactly when no piece holds
a line feed of its own.
-/

namespace AddressLines.Text

/-- The text holds no line feed. -/
def isInline (s : String) : Bool :=
  !s.toList.contains '\n'

theorem isInline_iff {s : String} : isInline s = true ↔ '\n' ∉ s.toList := by
  simp [isInline]

@[simp] theorem isInline_append (s t : String) : isInline (s ++ t) = (isInline s && isInline t) := by
  simp only [isInline, String.toList_append, List.contains_append, Bool.not_or]

/-- Text up to and with its first line feed is a line. -/
theorem lines_append {l : List Char} (hl : '\n' ∉ l) (cs : List Char) :
    lines (l ++ '\n' :: cs) = (l ++ ['\n']) :: lines cs := by
  induction l with
  | nil => simp [lines]
  | cons c l ih =>
    obtain ⟨hc, hl⟩ : '\n' ≠ c ∧ '\n' ∉ l := by simpa using hl
    rw [List.cons_append, lines, if_neg hc.symm, ih hl]
    rfl

/-- A line has a line feed at most at its end. -/
theorem notMem_dropLast_of_mem_lines {cs l : List Char} (h : l ∈ lines cs) : '\n' ∉ l.dropLast := by
  fun_induction lines cs generalizing l with
  | case1 => simp at h
  | case2 cs ih =>
    rcases List.mem_cons.mp h with rfl | h
    · simp
    · exact ih h
  | case3 c cs hc hnil ih =>
    obtain rfl : l = [c] := by simpa using h
    simp
  | case4 c cs hc l' ls hcons ih =>
    rcases List.mem_cons.mp h with rfl | h
    · have hl' := ih (hcons ▸ List.mem_cons_self ..)
      cases l' with
      | nil => simp
      | cons d ds => simpa [List.dropLast_cons_cons, Ne.symm hc] using hl'
    · exact ih (hcons ▸ List.mem_cons_of_mem _ h)

/-- A piece of text with a line feed behind it. -/
def ended (l : List Char) : List Char :=
  l ++ ['\n']

theorem lines_flatten_iff (ls : List (List Char)) :
    lines (ls.map ended).flatten = ls.map ended ↔ ∀ l ∈ ls, '\n' ∉ l := by
  constructor
  · intro h l hl
    have hmem : ended l ∈ lines (ls.map ended).flatten := by
      rw [h]
      exact List.mem_map_of_mem hl
    simpa [ended] using notMem_dropLast_of_mem_lines hmem
  · intro h
    induction ls with
    | nil => rfl
    | cons l ls ih =>
      obtain ⟨hl, hls⟩ := List.forall_mem_cons.mp h
      rw [List.map_cons, List.flatten_cons, ended, List.append_assoc, List.singleton_append, lines_append hl, ih hls]

end AddressLines.Text
