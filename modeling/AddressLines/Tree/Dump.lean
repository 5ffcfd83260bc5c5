import AddressLines.Tree.Stmt

/-!
# Dumps

A program and its parts as text for the eye of someone who debugs it.
-/

namespace AddressLines

def dumpName (x : String) : String :=
  "\nIdentifier\n  Name: '" ++ x ++ "'\n"

def Literal.dump (l : Literal) : String :=
  "\nLiteral\n  Type:" ++ l.kindName ++ "\n  Value: '" ++ l.value ++ "'\n"

def Expr.dump : Expr → String
  | absent => ""
  | name x => dumpName x
  | literal l => l.dump
  | unary op e => "\nUnary expression\n  Operator:" ++ op ++ "\n  Operand:\n" ++ e.dump
  | binary l op r =>
    "\nBinary expression:\n  Left operand:\n" ++ l.dump ++ "\n  Operator: " ++ op.symbol ++
      "\n  Right operand:\n" ++ r.dump

/-- What stands before the statements of a block. -/
def dumpHead : String :=
  "\nBlock statement:\n  Statements:"

mutual

def Stmt.dump : Stmt → String
  | .assign x defines e =>
    "\nAssign statement\n  Identifier:\n" ++ dumpName x ++ "\n  Operator: " ++
      Stmt.assignSign defines ++ "\n  Expression:\n" ++ e.dump
  | .branch b => "\nBranch statement:\n  Keyword: '" ++ b.keyword ++ "'"
  | .cond c body none =>
    "\nIf statement:\n Condition:" ++ c.dump ++ "  If body:" ++ dumpHead ++ dumpBody body ++
      "  Else body:"
  | .cond c body (some alternative) =>
    "\nIf statement:\n Condition:" ++ c.dump ++ "  If body:" ++ dumpHead ++ dumpBody body ++
      "  Else body:" ++ dumpHead ++ dumpBody alternative
  | .switch e arms =>
    "\nSwitch statement:\n  Expression:" ++ e.dump ++ "  Body:" ++ dumpArms arms

def dumpBody : Block → String
  | [] => ""
  | s :: ss => "\n" ++ s.dump ++ "\n" ++ dumpBody ss

def dumpArms : List (Arm Stmt) → String
  | [] => ""
  | ⟨guard, body⟩ :: arms =>
    "\n\nCase statement:\n  Case:\n" ++ guard.dump ++ "  Body:" ++ dumpHead ++ dumpBody body ++
      dumpArms arms

end

def Procedure.dump (p : Procedure) : String :=
  "\nFunction declaration\n  Name: " ++ dumpName p.name ++ "\n  Body: " ++ dumpHead ++
    dumpBody p.body

def Program.dump (p : Program) : String :=
  "Package:\n  Name: '" ++ p.package.getD "" ++ "'\nDeclarations:\n" ++
    String.join (p.procedures.map fun d => "  " ++ d.dump ++ "\n") ++
    "\nErrors:\n" ++ Fault.listing p.faults ++ "\n"

end AddressLines
