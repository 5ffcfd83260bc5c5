import AddressLines.Command.Excerpt
import AddressLines.Proofs.Text.Places
import Mathlib.Data.List.Forall2
import Mathlib.Data.List.TakeWhile

/-!
# What is printed on the way

The lines that show tokens and the excerpts that show faults, each by a rule of its own.

A token is shown on one line: its kind with the text in brackets, with empty brackets for a line end, or with the text
in backquotes (`Token.Shows`). An excerpt shows the line that a fault lies in, without the blanks around it, between
margins as wide as the number of the line, and marks the place of the fault under it (`Fault.Excerpted`).
-/

namespace AddressLines

/-- The texts that show the things in a list, one behind the other. -/
def ShownInTurn {α : Type} (shows : α → String → Prop) (xs : List α) (text : String) : Prop :=
  ∃ texts, List.Forall₂ shows xs texts ∧ text = String.join texts

theorem shownInTurn_map {α : Type} {shows : α → String → Prop} {f : α → String} (h : ∀ x, shows x (f x))
    (xs : List α) : ShownInTurn shows xs (String.join (xs.map f)) := by
  have hshows : List.Forall₂ shows xs (xs.map f) :=
    List.forall₂_map_right_iff.mpr (List.forall₂_same.mpr fun x _ => h x)
  exact ⟨xs.map f, hshows, rfl⟩

/-! ## Tokens -/

namespace Token

/-- The line that shows a token, with its line feed. -/
inductive Shows (t : Token) : String → Prop where
  | literal : t.kind = .literal → t.Shows ("Literal (" ++ t.text ++ ")\n")
  | identifier : t.kind = .identifier → t.Shows ("Identifier (" ++ t.text ++ ")\n")
  | invalid : t.kind = .invalid → t.Shows ("Invalid (" ++ t.text ++ ")\n")
  | lineEnd : t.kind = .lineEnd → t.Shows "EOL ()\n"
  | keyword : t.kind = .keyword → t.Shows ("Keyword `" ++ t.text ++ "`\n")
  | comment : t.kind = .comment → t.Shows ("Comment `" ++ t.text ++ "`\n")
  | operator : t.kind = .operator → t.Shows ("Operator `" ++ t.text ++ "`\n")
  | delimiter : t.kind = .delimiter → t.Shows ("Delimiter `" ++ t.text ++ "`\n")

theorem shows_listing (t : Token) : t.Shows (t.listing ++ "\n") := by
  obtain ⟨kind, text, span⟩ := t
  -- the texts around that of the token are put together in another order
  have hbehind (front back : String) : front ++ text ++ back ++ "\n" = front ++ text ++ (back ++ "\n") :=
    String.append_assoc ..
  cases kind with
  | literal => exact hbehind .. ▸ .literal rfl
  | identifier => exact hbehind .. ▸ .identifier rfl
  | invalid => exact hbehind .. ▸ .invalid rfl
  | lineEnd => exact .lineEnd rfl
  | keyword => exact hbehind .. ▸ .keyword rfl
  | comment => exact hbehind .. ▸ .comment rfl
  | operator => exact hbehind .. ▸ .operator rfl
  | delimiter => exact hbehind .. ▸ .delimiter rfl

end Token

/-! ## Excerpts -/

/-- A line is cut into the spaces and tabs before it, what is shown of it, and the blanks behind it. -/
structure Trims (line indent shown trail : List Char) : Prop where
  line : line = indent ++ (shown ++ trail)
  indent : ∀ c ∈ indent, c = ' ' ∨ c = '\t'
  starts : ∀ c, (shown ++ trail).head? = some c → c ≠ ' ' ∧ c ≠ '\t'
  trail : ∀ c ∈ trail, Text.isBlank c = true
  ends : ∀ c, shown.getLast? = some c → Text.isBlank c = false

theorem head?_dropWhile {p : Char → Bool} {cs : List Char} {c : Char} (h : (cs.dropWhile p).head? = some c) :
    p c = false := by
  have hstop := List.head?_dropWhile_not p cs
  simpa [h] using hstop

theorem exists_trims (line : List Char) :
    ∃ trail, Trims line (line.takeWhile Text.isIndent) (Text.trimEnd (line.dropWhile Text.isIndent)) trail := by
  have hcut : Text.trimEnd (line.dropWhile Text.isIndent) ++
      ((line.dropWhile Text.isIndent).reverse.takeWhile Text.isBlank).reverse = line.dropWhile Text.isIndent := by
    rw [Text.trimEnd, ← List.reverse_append, List.takeWhile_append_dropWhile, List.reverse_reverse]
  refine ⟨((line.dropWhile Text.isIndent).reverse.takeWhile Text.isBlank).reverse, ?_, ?_, ?_, ?_, ?_⟩
  · rw [hcut, List.takeWhile_append_dropWhile]
  · intro c hc
    simpa [Text.isIndent] using List.mem_takeWhile_imp hc
  · intro c hc
    rw [hcut] at hc
    simpa [Text.isIndent] using head?_dropWhile hc
  · intro c hc
    exact List.mem_takeWhile_imp (List.mem_reverse.mp hc)
  · intro c hc
    rw [Text.trimEnd, List.getLast?_reverse] at hc
    exact head?_dropWhile hc

namespace Fault

/-- The class of a fault, with its hint if it has one. -/
def heading (f : Fault) : String :=
  match f.cause.hint? with
  | none => "Error: " ++ f.cause.name
  | some hint => "Error: " ++ f.cause.name ++ " (" ++ hint ++ ")"

/-- The text that shows where a fault lies in a source: nothing for one that lies nowhere in it, and five lines for any
other. -/
inductive Excerpted (source path : String) (f : Fault) : String → Prop where
  | outside : (∀ p, f.position = some p → source.utf8ByteSize ≤ p.offset) → Excerpted source path f ""
  | inside {p : Position} {place : Text.Place} {pre post indent shown trail : List Char} {number margin : String} :
    f.position = some p → place.Cuts source.toList p.offset pre post → Trims place.line indent shown trail →
      number = toString place.number → margin = String.ofList (List.replicate (number.length + 1) ' ') ++ "|" →
      Excerpted source path f
        (f.heading ++ "\n" ++
          ("-> " ++ path ++ "\n") ++
          (margin ++ "\n") ++
          (number ++ " | " ++ String.ofList shown ++ "\n") ++
          (margin ++ " " ++ String.ofList (List.replicate (place.column - indent.length) '-') ++ "^" ++ "\n"))

end Fault

namespace Command

theorem alignRight_succ {mark : String} (h : mark.length = 1) (n : Nat) (fill : Char) :
    alignRight (n + 1) fill mark = String.ofList (List.replicate n fill) ++ mark := by
  rw [alignRight, h, Nat.add_sub_cancel]

theorem heading_eq (f : Fault) :
    f.heading = "Error: " ++ f.cause.name ++ f.cause.hint?.elim "" fun hint => " (" ++ hint ++ ")" := by
  rw [Fault.heading]
  cases f.cause.hint? with
  | none => exact String.append_empty.symm
  | some hint => simp only [Option.elim_some, String.append_assoc]

theorem length_sub_dropWhile (line : List Char) :
    line.length - (line.dropWhile Text.isIndent).length = (line.takeWhile Text.isIndent).length := by
  have hlength := congrArg List.length (List.takeWhile_append_dropWhile (p := Text.isIndent) (l := line))
  rw [List.length_append] at hlength
  omega

theorem excerptAt_eq {path number margin : String} {f : Fault} {place : Text.Place}
    (hnumber : number = toString place.number)
    (hmargin : margin = String.ofList (List.replicate (number.length + 1) ' ') ++ "|") :
    excerptAt path f place =
      f.heading ++ "\n" ++ ("-> " ++ path ++ "\n") ++ (margin ++ "\n") ++
        (number ++ " | " ++ String.ofList (Text.trimEnd (place.line.dropWhile Text.isIndent)) ++ "\n") ++
        (margin ++ " " ++
          String.ofList (List.replicate (place.column - (place.line.takeWhile Text.isIndent).length) '-') ++ "^" ++
          "\n") := by
  have hbar : alignRight (number.length + 2) ' ' "|" = margin := hmargin ▸ alignRight_succ rfl ..
  have hmark (n : Nat) : alignRight (n + 1) '-' "^" = String.ofList (List.replicate n '-') ++ "^" :=
    alignRight_succ rfl ..
  unfold excerptAt
  simp only [← hnumber, hbar, hmark, length_sub_dropWhile, heading_eq, String.append_assoc]

theorem excerptAt_excerpted {source path : String} {f : Fault} {p : Position} {place : Text.Place}
    (hposition : f.position = some p) (hplace : Text.placeAt? source p.offset = some place) :
    f.Excerpted source path (excerptAt path f place) := by
  obtain ⟨pre, post, hcuts⟩ := Text.cuts_of_locate hplace
  obtain ⟨trail, htrims⟩ := exists_trims place.line
  rw [excerptAt_eq rfl rfl]
  exact .inside hposition hcuts htrims rfl rfl

theorem excerpt_excerpted (source path : String) (f : Fault) : f.Excerpted source path (excerpt source path f) := by
  rw [excerpt]
  split
  · rename_i hnone
    refine .outside fun p hp => ?_
    rw [hp, Option.bind_some, Text.placeAt?, Text.locate_eq_none_iff, Text.flatten_lines] at hnone
    rwa [← Text.utf8ByteSize_ofList, String.ofList_toList] at hnone
  · rename_i place hplace
    obtain ⟨p, hposition, hplace⟩ := Option.bind_eq_some_iff.mp hplace
    exact excerptAt_excerpted hposition hplace

end Command

end AddressLines
