import AddressLines.Proofs.Tree.Whole

/-!
# Expressions in a program

The expressions that stand in a program, at any depth, in their order. An expression is filled when no operator in it
misses an operand; it may be absent as a whole.
-/

namespace AddressLines

mutual

def Stmt.exprs : Stmt → List Expr
  | .assign _ _ e => [e]
  | .branch _ => []
  | .cond c body none => c :: Block.exprs body
  | .cond c body (some alternative) => c :: (Block.exprs body ++ Block.exprs alternative)
  | .switch e arms => e :: Arm.allExprs arms

def Block.exprs : Block → List Expr
  | [] => []
  | s :: ss => s.exprs ++ Block.exprs ss

def Arm.allExprs : List (Arm Stmt) → List Expr
  | [] => []
  | ⟨guard, body⟩ :: arms => guard :: (Block.exprs body ++ Arm.allExprs arms)

end

def Program.exprs (p : Program) : List Expr :=
  p.procedures.flatMap fun q => Block.exprs q.body

namespace Expr

/-- No operator in the expression misses an operand. -/
def isFilled : Expr → Bool
  | .absent | .name _ | .literal _ => true
  | .unary _ e => !e.isAbsent && e.isFilled
  | .binary l _ r => !l.isAbsent && !r.isAbsent && l.isFilled && r.isFilled

theorem isWhole_of_isFilled {e : Expr} (hfilled : e.isFilled = true) (habsent : e.isAbsent = false) :
    e.isWhole = true := by
  induction e with
  | absent => simp [isAbsent] at habsent
  | name x => rfl
  | literal l => rfl
  | unary op e ih =>
    simp only [isFilled, Bool.and_eq_true, Bool.not_eq_true'] at hfilled
    exact ih hfilled.2 hfilled.1
  | binary l op r ihl ihr =>
    simp only [isFilled, Bool.and_eq_true, Bool.not_eq_true'] at hfilled
    obtain ⟨⟨⟨hl, hr⟩, hfilled⟩, hfilled'⟩ := hfilled
    rw [isWhole, ihl hfilled hl, ihr hfilled' hr, Bool.and_self]

theorem isFilled_of_isWhole {e : Expr} (h : e.isWhole = true) : e.isFilled = true := by
  induction e with
  | absent => rfl
  | name x => rfl
  | literal l => rfl
  | unary op e ih => simp [isFilled, ih h, isAbsent_of_isWhole (e := e) h]
  | binary l op r ihl ihr =>
    obtain ⟨hl, hr⟩ : l.isWhole = true ∧ r.isWhole = true := by simpa only [isWhole, Bool.and_eq_true] using h
    simp [isFilled, ihl hl, ihr hr, isAbsent_of_isWhole hl, isAbsent_of_isWhole hr]

end Expr

end AddressLines
