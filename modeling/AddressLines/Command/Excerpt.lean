import AddressLines.Fault
import AddressLines.Text.Blank
import AddressLines.Text.Line

/-!
# Excerpts

The line of a fault with a mark under it. The blanks before the line are left out, and the mark stands as
many bytes to the right as the fault lies behind them.
-/

namespace AddressLines.Command

/-- A text pushed to the right of a field. -/
def alignRight (width : Nat) (fill : Char) (s : String) : String :=
  String.ofList (List.replicate (width - s.length) fill) ++ s

def excerptAt (path : String) (f : Fault) (place : Text.Place) : String :=
  let number := toString place.number
  let margin := alignRight (number.length + 2) ' ' "|"
  let shown := place.line.dropWhile Text.isIndent
  let column := place.column - (place.line.length - shown.length) + 1
  "Error: " ++ f.cause.name ++ (f.cause.hint?.elim "" fun hint => " (" ++ hint ++ ")") ++ "\n" ++
    "-> " ++ path ++ "\n" ++
    margin ++ "\n" ++
    number ++ " | " ++ String.ofList (Text.trimEnd shown) ++ "\n" ++
    margin ++ " " ++ alignRight column '-' "^" ++ "\n"

/-- Nothing for a fault that lies at no place of the source. -/
def excerpt (source path : String) (f : Fault) : String :=
  match f.position.bind fun p => Text.placeAt? source p.offset with
  | none => ""
  | some place => excerptAt path f place

end AddressLines.Command
