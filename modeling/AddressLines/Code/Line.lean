import AddressLines.Code.Address
import AddressLines.Code.Step

/-!
# Address lines

The code of a program is a header and a list of lines, each with a marker, an address and a content. A
`Q` line states something, an `A` line under it answers with a literal value.
-/

namespace AddressLines

structure Line where
  marker : Char
  address : Address
  content : String
deriving DecidableEq, Repr

namespace Line

def text (l : Line) : String :=
  l.address.indent ++ l.marker.toString ++ l.address.text ++ " " ++ l.content ++ "\n"

def textOf (ls : List Line) : String :=
  String.join (ls.map text)

end Line

/-- A variable is written between ampersands. -/
def codeName (x : String) : String :=
  "&" ++ x ++ "&"

def Literal.code : Literal → String
  | string s => "\"" ++ s ++ "\""
  | l => l.value

def Expr.code : Expr → String
  | absent => ""
  | name x => codeName x
  | literal l => l.code
  | unary op e => op ++ " " ++ e.code
  | binary l op r => l.code ++ " " ++ op.symbol ++ " " ++ r.code

/-- A literal is answered on a line of its own, any other value stands beside its target. -/
def assignLines (a : Address) (x : String) : Expr → List Line
  | .literal l => [⟨'Q', a, codeName x⟩, ⟨'A', a, l.code⟩]
  | e => [⟨'Q', a, codeName x ++ " := " ++ e.code⟩]

mutual

/-- The lines of a step at an address. The parts of a conditional are one level down, its closing lines
numbered along with them. -/
def Step.lines (a : Address) : Step → List Line
  | .assign x e => assignLines a x e
  | .branch b => [⟨'Q', a, b.keyword⟩]
  | .choose c body none =>
    ⟨'Q', a, "IF " ++ c.code ++ " THEN BEGIN"⟩ :: linesFrom a.child body ++
      [⟨'Q', a.child.skip body.length, "END"⟩]
  | .choose c body (some alternative) =>
    let middle := a.child.skip body.length
    ⟨'Q', a, "IF " ++ c.code ++ " THEN BEGIN"⟩ :: linesFrom a.child body ++
      ⟨'Q', middle, "END ELSE BEGIN"⟩ :: linesFrom middle.next alternative ++
      [⟨'Q', middle.next.skip alternative.length, "END"⟩]

/-- The lines of steps at consecutive addresses. -/
def linesFrom (a : Address) : List Step → List Line
  | [] => []
  | s :: ss => s.lines a ++ linesFrom a.next ss

end

def Procedure.lines (a : Address) (p : Procedure) : List Line :=
  ⟨'Q', a, "PROCEDURE " ++ codeName p.name⟩ :: linesFrom a.child (steps p.body) ++
    [⟨'Q', a, "ENDPROC " ++ codeName p.name⟩]

/-- The lines of procedures at consecutive addresses. -/
def procedureLines (a : Address) : List Procedure → List Line
  | [] => []
  | p :: ps => p.lines a ++ procedureLines a.next ps

namespace Program

def lines (p : Program) : List Line :=
  procedureLines ⟨[1, 1]⟩ p.procedures

def header (p : Program) : String :=
  "Z1 " ++ p.package.getD "" ++ "\n"

def code (p : Program) : String :=
  p.header ++ Line.textOf p.lines

end Program

end AddressLines
