/-!
# Escaped text

A text written in printable ASCII: quotes, the backslash and the three usual control characters get a
backslash, every other character outside `0x20` to `0x7e` is given by its code point in hexadecimal.
-/

namespace AddressLines.Text

def escapeChar (c : Char) : List Char :=
  match c with
  | '\t' => ['\\', 't']
  | '\r' => ['\\', 'r']
  | '\n' => ['\\', 'n']
  | '\'' => ['\\', '\'']
  | '"' => ['\\', '"']
  | '\\' => ['\\', '\\']
  | c =>
    if 0x20 ≤ c.toNat && c.toNat ≤ 0x7e then [c]
    else '\\' :: 'u' :: '\x7b' :: Nat.toDigits 16 c.toNat ++ ['\x7d']

def escape (s : String) : String :=
  String.ofList (s.toList.flatMap escapeChar)

end AddressLines.Text
