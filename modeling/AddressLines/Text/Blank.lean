/-!
# Blank characters

The characters with the `White_Space` property, and the text that is left when they are taken off its
end.
-/

namespace AddressLines.Text

/-- Code points with the `White_Space` property, as closed ranges. -/
def blankRanges : List (Nat × Nat) :=
  [(0x9, 0xD), (0x20, 0x20), (0x85, 0x85), (0xA0, 0xA0), (0x1680, 0x1680), (0x2000, 0x200A),
    (0x2028, 0x2029), (0x202F, 0x202F), (0x205F, 0x205F), (0x3000, 0x3000)]

def isBlank (c : Char) : Bool :=
  blankRanges.any fun (lo, hi) => lo ≤ c.toNat && c.toNat ≤ hi

/-- Carriage return or line feed: each one is a line end of its own. -/
def isLineEnd (c : Char) : Bool :=
  c == '\r' || c == '\n'

/-- Blanks inside a line. -/
def isIndent (c : Char) : Bool :=
  c == ' ' || c == '\t'

def trimEnd (cs : List Char) : List Char :=
  (cs.reverse.dropWhile isBlank).reverse

end AddressLines.Text
