import AddressLines.Tree.Stmt

/-!
# Steps

What remains of statements when they are written out: a switch has become a chain of conditionals, the
first arm that fits wins, and a switch without arms is gone. Each step is written at one address.
-/

namespace AddressLines

inductive Step where
  | assign (target : String) (value : Expr)
  | branch (word : Branch)
  | choose (condition : Expr) (body : List Step) (alternative : Option (List Step))
deriving Repr

/-- When an arm is taken: always if it has no guard, else when its guard equals the subject, or holds if
there is no subject. -/
def Expr.armCondition (subject guard : Expr) : Expr :=
  if guard.isAbsent then .literal (.boolean true)
  else if subject.isAbsent then guard
  else .binary subject .eq guard

/-- A switch as a chain of conditionals, each one the alternative of the one before. -/
def Stmt.chain? (subject : Expr) : List (Arm Stmt) → Option Stmt
  | [] => none
  | ⟨guard, body⟩ :: arms =>
    some (.cond (subject.armCondition guard) body ((chain? subject arms).map ([·])))

mutual

def Stmt.step? : Stmt → Option Step
  | .assign x _ e => some (.assign x e)
  | .branch b => some (.branch b)
  | .cond c body none => some (.choose c (steps body) none)
  | .cond c body (some alternative) =>
    some (.choose c (steps body) (if alternative.isEmpty then none else some (steps alternative)))
  | .switch e arms => armStep? e arms

def steps : Block → List Step
  | [] => []
  | s :: ss => s.step?.toList ++ steps ss

def armStep? (subject : Expr) : List (Arm Stmt) → Option Step
  | [] => none
  | ⟨guard, body⟩ :: arms =>
    some (.choose (subject.armCondition guard) (steps body) ((armStep? subject arms).map ([·])))

end

end AddressLines
