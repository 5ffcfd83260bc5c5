import AddressLines.Text.Measure

/-!
# Lines of a text

A text is cut after each line feed, which stays with its line. A byte offset inside the text then lies in
exactly one line.
-/

namespace AddressLines.Text

/-- The lines of a text, each with the line feed that ends it; the last one may have none. -/
def lines : List Char → List (List Char)
  | [] => []
  | c :: cs =>
    if c = '\n' then [c] :: lines cs
    else
      match lines cs with
      | [] => [[c]]
      | l :: ls => (c :: l) :: ls

/-- A place in a text: the number of its line, counted from one, the line, and the bytes before the
place in it. -/
structure Place where
  number : Nat
  line : List Char
  column : Nat
deriving DecidableEq, Repr

/-- Finds an offset in lines that are numbered from `number`. -/
def locate (number offset : Nat) : List (List Char) → Option Place
  | [] => none
  | l :: ls =>
    if offset < byteLength l then some ⟨number, l, offset⟩
    else locate (number + 1) (offset - byteLength l) ls

def placeAt? (text : String) (offset : Nat) : Option Place :=
  locate 1 offset (lines text.toList)

end AddressLines.Text
