import AddressLines.Tree.Stmt

/-!
# Whole programs

In a whole program an expression is absent in two places only: as the subject of a switch that has
none, and as the guard of a default arm.
-/

namespace AddressLines

/-- Nothing is absent in the expression. -/
def Expr.isWhole : Expr → Bool
  | .absent => false
  | .name _ | .literal _ => true
  | .unary _ e => e.isWhole
  | .binary l _ r => l.isWhole && r.isWhole

theorem Expr.isAbsent_of_isWhole {e : Expr} (he : e.isWhole = true) : e.isAbsent = false := by
  cases e with
  | absent => simp [isWhole] at he
  | _ => rfl

mutual

def Stmt.isWhole : Stmt → Bool
  | .assign _ _ e => e.isWhole
  | .branch _ => true
  | .cond c body none => c.isWhole && Block.isWhole body
  | .cond c body (some alternative) =>
    c.isWhole && Block.isWhole body && Block.isWhole alternative
  | .switch e arms => (e.isAbsent || e.isWhole) && Arm.areWhole arms

def Block.isWhole : Block → Bool
  | [] => true
  | s :: ss => s.isWhole && Block.isWhole ss

def Arm.areWhole : List (Arm Stmt) → Bool
  | [] => true
  | ⟨guard, body⟩ :: arms =>
    (guard.isAbsent || guard.isWhole) && Block.isWhole body && Arm.areWhole arms

end

def Program.isWhole (p : Program) : Bool :=
  p.procedures.all fun q => Block.isWhole q.body

end AddressLines
