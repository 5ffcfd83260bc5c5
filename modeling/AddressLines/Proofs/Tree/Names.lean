import AddressLines.Tree.Stmt

/-!
# Names in a program

The variables that a program mentions, in the order in which they stand in it, be it as the target of an assignment or
inside an expression.
-/

namespace AddressLines

def Expr.names : Expr → List String
  | absent | literal _ => []
  | name x => [x]
  | unary _ e => e.names
  | binary l _ r => l.names ++ r.names

mutual

def Stmt.names : Stmt → List String
  | .assign x _ e => x :: e.names
  | .branch _ => []
  | .cond c body none => c.names ++ Block.names body
  | .cond c body (some alternative) => c.names ++ Block.names body ++ Block.names alternative
  | .switch e arms => e.names ++ Arm.allNames arms

def Block.names : Block → List String
  | [] => []
  | s :: ss => s.names ++ Block.names ss

def Arm.allNames : List (Arm Stmt) → List String
  | [] => []
  | ⟨guard, body⟩ :: arms => guard.names ++ Block.names body ++ Arm.allNames arms

end

def Program.names (p : Program) : List String :=
  p.procedures.flatMap fun q => Block.names q.body

end AddressLines
