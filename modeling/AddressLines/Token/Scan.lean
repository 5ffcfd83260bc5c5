import AddressLines.Text.Measure
import AddressLines.Token.Lexeme

/-!
# Scanning

Source text as a list of tokens. Comments are left out, and so is every character at which no lexeme
stands, that is every blank inside a line.
-/

namespace AddressLines.Token

theorem length_pos_of_lexeme? {before : Option Char} {cs : List Char} {kind : Kind}
    (h : lexeme? before cs = some kind) : 0 < kind.length before cs := by
  simpa using List.find?_some h

/-- The tokens of `cs`, which stands at a byte offset of the file, after the character `before`. -/
def scanFrom (file : String) (before : Option Char) (offset : Nat) : List Char → List Token
  | [] => []
  | c :: rest =>
    match _h : lexeme? before (c :: rest) with
    | none => scanFrom file (some c) (offset + c.utf8Size) rest
    | some kind =>
      let n := kind.length before (c :: rest)
      let text := (c :: rest).take n
      let stop := offset + Text.byteLength text
      let tokens := scanFrom file text.getLast? stop ((c :: rest).drop n)
      if kind = .comment then tokens else ⟨kind, String.ofList text, ⟨file, offset, stop⟩⟩ :: tokens
termination_by cs => cs.length
decreasing_by
  · simp
  · have := length_pos_of_lexeme? _h
    simp only [List.length_drop, List.length_cons]
    omega

def scan (file source : String) : List Token :=
  scanFrom file none 0 source.toList

end AddressLines.Token
