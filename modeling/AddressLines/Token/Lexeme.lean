import AddressLines.Text.Blank
import AddressLines.Text.Word
import AddressLines.Token.Basic

/-!
# Lexemes

What may stand at one place of a source text. Each rule looks at the character before the place and at
the text from there on, and answers how many characters it takes, none if it does not apply. The rules
are tried in a fixed order and the first that applies wins, so a keyword is never read as an identifier and
a comment never as two operators.
-/

namespace AddressLines.Token

open Text

def keywords : List String :=
  ["package", "func", "switch", "case", "default", "var", "for", "break", "continue", "return", "if",
    "else"]

def booleans : List String :=
  ["true", "false"]

/-- Operators in the order they are tried: no operator comes after a shorter one that it starts with. -/
def operators : List String :=
  [":=", "==", "!=", "<=", ">=", "&&", "||", "=", "++", "--", "+", "-", "*", "/", "%", ">", "<", "!"]

def delimiters : List Char :=
  ['\x7b', '\x7d', '(', ')', ':', ';', ',']

def isDelimiter (c : Char) : Bool :=
  delimiters.contains c

/-- What may stand once inside a numeral: the decimal point, an exponent mark or the mark of a base. -/
def isNumeralMark (c : Char) : Bool :=
  ['.', 'e', 'x', 'o', 'b', 'E', 'X', 'O', 'B'].contains c

def isNameStart (c : Char) : Bool :=
  c.isAlpha || c == '_'

def isNamePart (c : Char) : Bool :=
  c.isAlphanum || c == '_'

/-! ## Rules -/

/-- A whole word out of a list: no word character stands before it or after it. -/
def wordLength (words : List String) (before : Option Char) (cs : List Char) : Nat :=
  if noWord before && words.contains (String.ofList (wordRun cs)) then (wordRun cs).length else 0

/-- The text up to and including the next `*/`, or all of it. -/
def closingLength : List Char → Nat
  | '*' :: '/' :: _ => 2
  | _ :: cs => closingLength cs + 1
  | [] => 0

def commentLength : List Char → Nat
  | '/' :: '/' :: cs => (cs.takeWhile (!Text.isLineEnd ·)).length + 2
  | '/' :: '*' :: cs => closingLength cs + 2
  | _ => 0

def operatorLength (cs : List Char) : Nat :=
  (operators.find? (·.toList.isPrefixOf cs)).elim 0 String.length

/-- One character of a class. -/
def singleLength (p : Char → Bool) : List Char → Nat
  | c :: _ => if p c then 1 else 0
  | [] => 0

/-- A numeral, in a text that starts with a digit. -/
def numeralLength (cs : List Char) : Nat :=
  let whole := (cs.takeWhile Char.isDigit).length
  match cs.drop whole with
  | c :: rest =>
    if isNumeralMark c then whole + 1 + (rest.takeWhile Char.isDigit).length else whole
  | [] => whole

/-- Text up to a closing double quote, line ends included, in a text behind the opening one. -/
def quotedLength (cs : List Char) : Nat :=
  let inside := (cs.takeWhile (· != '"')).length
  if inside < cs.length then inside + 2 else 0

/-- One character, perhaps after a backslash, up to a closing single quote, in a text behind the opening
one. -/
def characterLength : List Char → Nat
  | '\\' :: c :: '\'' :: _ => if c == '\n' then 0 else 4
  | c :: '\'' :: _ => if c == '\n' then 0 else 3
  | _ => 0

/-- The first character tells which of the four forms of a literal this can be. -/
def literalLength (before : Option Char) : List Char → Nat
  | [] => 0
  | '"' :: cs => quotedLength cs
  | '\'' :: cs => characterLength cs
  | c :: cs =>
    if c.isDigit then numeralLength (c :: cs) else wordLength booleans before (c :: cs)

def nameLength : List Char → Nat
  | c :: cs => if isNameStart c then (cs.takeWhile isNamePart).length + 1 else 0
  | [] => 0

/-! ## The choice between the rules -/

def kinds : List Kind :=
  [.keyword, .comment, .operator, .delimiter, .literal, .identifier, .lineEnd, .invalid]

def Kind.length (before : Option Char) (cs : List Char) : Kind → Nat
  | .keyword => wordLength keywords before cs
  | .comment => commentLength cs
  | .operator => operatorLength cs
  | .delimiter => singleLength isDelimiter cs
  | .literal => literalLength before cs
  | .identifier => nameLength cs
  | .lineEnd => singleLength Text.isLineEnd cs
  | .invalid => singleLength (!isBlank ·) cs

/-- The first kind, in the order of `kinds`, that takes some text at this place. -/
def lexeme? (before : Option Char) (cs : List Char) : Option Kind :=
  kinds.find? fun k => 0 < k.length before cs

end AddressLines.Token
