import AddressLines.Proofs.Code.Numbering
import AddressLines.Proofs.Code.Plain

/-!
# Code as text

The text of a program is its header and its lines, one behind the other, each with a line feed behind it. Cut at the
line feeds it falls into the header and the lines again exactly when no content holds a line feed. A line is told
by its text: the first blank in it ends the address.
-/

namespace AddressLines

open Text

namespace Line

variable {l m : Line}

/-- The line is a stated line or an answer. -/
def IsMarked (l : Line) : Prop :=
  l.marker = 'Q' ∨ l.marker = 'A'

/-- Tabs, the marker and the address: what stands before the first blank of a line. -/
def label (l : Line) : List Char :=
  List.replicate (l.address.depth - 1) '\t' ++ l.marker :: l.address.text.toList

/-- The text of a line without the line feed behind it. -/
def row (l : Line) : List Char :=
  l.label ++ ' ' :: l.content.toList

theorem toList_text (l : Line) : l.text.toList = ended l.row := by
  simp [text, row, label, ended, Address.indent]

theorem toList_textOf (ls : List Line) : (textOf ls).toList = ((ls.map row).map ended).flatten := by
  rw [textOf, String.toList_join, List.flatMap_def, List.map_map, List.map_map]
  exact congrArg List.flatten (List.map_congr_left fun l _ => l.toList_text)

/-- An address is written with digits and points. -/
theorem notMem_address {c : Char} (hdigit : c.isDigit = false) (hpoint : c ≠ '.') (a : Address) :
    c ∉ a.text.toList := by
  intro h
  rw [Address.toList_text] at h
  obtain ⟨n, -, hn⟩ := List.mem_flatMap.mp h
  rcases List.mem_append.mp hn with hn | hn
  · have hc := Nat.isDigit_of_mem_toDigits (by omega) (by omega) hn
    simp [hdigit] at hc
  · exact hpoint (by simpa using hn)

theorem notMem_label (hl : l.IsMarked) {c : Char} (hdigit : c.isDigit = false)
    (hc : c ∉ ['\t', 'Q', 'A', '.']) : c ∉ l.label := by
  simp only [List.mem_cons, List.not_mem_nil, or_false, not_or] at hc
  obtain ⟨htab, hq, ha, hpoint⟩ := hc
  have hmarker : c ≠ l.marker := by
    rcases hl with hl | hl <;> rwa [hl]
  have haddress := notMem_address hdigit hpoint l.address
  simp [label, htab, hmarker, haddress]

theorem newline_notMem_row_iff (hl : l.IsMarked) : '\n' ∉ l.row ↔ isInline l.content = true := by
  have hlabel : '\n' ∉ l.label := notMem_label hl (by decide) (by decide)
  rw [isInline_iff]
  simp [row, hlabel]

theorem label_injective (hl : l.IsMarked) (hm : m.IsMarked) (h : l.label = m.label) :
    l.marker = m.marker ∧ l.address = m.address := by
  have hskip : ∀ {l : Line}, l.IsMarked → l.label.dropWhile (· == '\t') = l.marker :: l.address.text.toList := by
    intro l hl
    have hmarker : (l.marker == '\t') = false := by
      rcases hl with hl | hl <;> rw [hl] <;> decide
    rw [label, List.dropWhile_append_of_pos (by simp), List.dropWhile_cons_of_neg (by simp [hmarker])]
  have hrest := congrArg (List.dropWhile (· == '\t')) h
  rw [hskip hl, hskip hm, List.cons.injEq] at hrest
  exact ⟨hrest.1, Address.text_injective (String.toList_inj.mp hrest.2)⟩

theorem row_injective (hl : l.IsMarked) (hm : m.IsMarked) (h : l.row = m.row) : l = m := by
  have hblank : ∀ {l : Line}, l.IsMarked → ' ' ∉ l.label := fun hl => notMem_label hl (by decide) (by decide)
  obtain ⟨hlabel, hcontent⟩ := append_cons_inj (hblank hl) (hblank hm) h
  obtain ⟨hmarker, haddress⟩ := label_injective hl hm hlabel
  obtain ⟨marker, address, content⟩ := l
  obtain ⟨marker', address', content'⟩ := m
  obtain rfl : content = content' := String.toList_inj.mp hcontent
  obtain rfl : marker = marker' := hmarker
  obtain rfl : address = address' := haddress
  rfl

theorem eq_of_map_row_eq {ls ms : List Line} (hls : ∀ l ∈ ls, l.IsMarked) (hms : ∀ m ∈ ms, m.IsMarked)
    (h : ls.map row = ms.map row) : ls = ms := by
  induction ls generalizing ms with
  | nil => exact (List.map_eq_nil_iff.mp h.symm).symm
  | cons l ls ih =>
    obtain ⟨m, ms, rfl, hrow, hrows⟩ := List.map_eq_cons_iff.mp h.symm
    obtain ⟨hl, hls⟩ := List.forall_mem_cons.mp hls
    obtain ⟨hm, hms⟩ := List.forall_mem_cons.mp hms
    rw [row_injective hl hm hrow.symm, ih hls hms hrows.symm]

end Line

namespace Program

theorem isMarked_of_mem_lines {p : Program} {l : Line} (h : l ∈ p.lines) : l.IsMarked :=
  (Line.procedureLines_ordered p.procedures 1).markers l h

/-- The name behind the mark of the header; a program without a package has the empty name. -/
def packageName (p : Program) : String :=
  p.package.getD ""

/-- The header and the lines of a program, without the line feeds behind them. -/
def rows (p : Program) : List (List Char) :=
  ("Z1 " ++ p.packageName).toList :: p.lines.map Line.row

theorem toList_code (p : Program) : p.code.toList = (p.rows.map ended).flatten := by
  simp [code, header, rows, packageName, Line.toList_textOf, ended]

/-- The rows of a plain program are the lines of its text exactly when no string literal that is written out holds a
line feed. -/
theorem lines_code_iff {p : Program} (h : p.isPlain = true) :
    Text.lines p.code.toList = p.rows.map ended ↔ ∀ s ∈ p.strings, isInline s = true := by
  have hname : '\n' ∉ ("Z1 " ++ p.packageName).toList := by
    rw [← isInline_iff, isInline_append, packageName]
    cases hpackage : p.package with
    | none => decide
    | some x =>
      have hx : Token.isIdentifier x = true := by
        simp only [isPlain, hpackage, Option.all_some, Bool.and_eq_true] at h
        exact h.1
      rw [Option.getD_some, Token.isInline_of_isIdentifier hx]
      decide
  have hrows : (∀ l ∈ p.lines, '\n' ∉ l.row) ↔ Line.AreInline p.lines :=
    forall₂_congr fun l hl => Line.newline_notMem_row_iff (isMarked_of_mem_lines hl)
  rw [toList_code, lines_flatten_iff, ← areInline_lines h, ← hrows, rows, List.forall_mem_cons, List.forall_mem_map]
  exact and_iff_right hname

end Program

end AddressLines
