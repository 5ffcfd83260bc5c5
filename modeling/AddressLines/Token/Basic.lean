import AddressLines.Text.Escape

/-!
# Tokens

A token is a piece of source text with its kind and the bytes it covers. Line ends are tokens too, since
they may end a statement.
-/

namespace AddressLines

/-- The text of a brace that opens a block. -/
abbrev openBrace : String := "\x7b"

/-- The text of a brace that closes a block. -/
abbrev closeBrace : String := "\x7d"

/-- A byte offset in a named file. Offsets are numbers of any size; 32 bits hold all of them in a source
of less than 4 GiB. -/
structure Position where
  offset : Nat
  file : String
deriving DecidableEq, Repr

/-- The bytes from `start` up to, but not including, `stop`. -/
structure Span where
  file : String
  start : Nat
  stop : Nat
deriving DecidableEq, Repr

namespace Token

inductive Kind where
  | keyword
  | comment
  | operator
  | delimiter
  | literal
  | identifier
  | lineEnd
  | invalid
deriving DecidableEq, Repr

def Kind.name : Kind → String
  | .keyword => "Keyword"
  | .comment => "Comment"
  | .operator => "Operator"
  | .delimiter => "Delimiter"
  | .literal => "Literal"
  | .identifier => "Identifier"
  | .lineEnd => "EOL"
  | .invalid => "Invalid"

end Token

structure Token where
  kind : Token.Kind
  text : String
  span : Span
deriving DecidableEq, Repr

namespace Token

def start (t : Token) : Position :=
  ⟨t.span.start, t.span.file⟩

def stop (t : Token) : Position :=
  ⟨t.span.stop, t.span.file⟩

def isLineEnd (t : Token) : Bool :=
  t.kind == .lineEnd

/-- A statement may end at a line end or a semicolon. -/
def isTerminator (t : Token) : Bool :=
  t.isLineEnd || (t.kind == .delimiter && t.text == ";")

/-- The token with its kind, its text escaped. -/
def describe (t : Token) : String :=
  "Token \x7b\nkind: " ++ t.kind.name ++ ",\nvalue: " ++ Text.escape t.text ++ "\x7d"

/-- The token on one line, as a listing of tokens shows it. -/
def listing (t : Token) : String :=
  match t.kind with
  | .literal | .identifier | .invalid => t.kind.name ++ " (" ++ t.text ++ ")"
  | .lineEnd => t.kind.name ++ " ()"
  | _ => t.kind.name ++ " `" ++ t.text ++ "`"

end Token

end AddressLines
