import AddressLines.Tree.Stmt
import AddressLines.Typing.Scope

/-!
# Checking

The type of an expression follows from the types of its variables; a variable takes the type of the value
it was defined with and keeps it. Each nested block has a scope of its own. Checking goes on after a fault.
-/

namespace AddressLines

/-- The type of an operation, with a fault if the operands do not agree. -/
def Ty.operation (op : BinOp) (left right : Ty) : Ty × List Fault :=
  if left.agrees right then (.ofOperation op left right, [])
  else (.undefined, [⟨.mismatchedTypes left.name right.name, none⟩])

/-- The type of an expression and the faults in it, when `look` tells the types of variables. -/
def Expr.infer (look : String → Option Ty) : Expr → Ty × List Fault
  | absent => (.undefined, [])
  | literal l => (l.ty, [])
  | name x =>
    match look x with
    | some τ => (τ, [])
    | none => (.undefined, [⟨.notDefined x, none⟩])
  | unary _ e => e.infer look
  | binary l op r =>
    let left := l.infer look
    let right := r.infer look
    let whole := Ty.operation op left.1 right.1
    (whole.1, left.2 ++ right.2 ++ whole.2)

namespace Checker

def infer (c : Checker) (e : Expr) : Ty :=
  (e.infer c.fetch?).1

/-- Records the faults of an expression. -/
def checkExpr (c : Checker) (e : Expr) : Checker :=
  c.reportAll (e.infer c.fetch?).2

/-- A condition is a truth value. -/
def checkCondition (c : Checker) (e : Expr) : Checker :=
  let τ := c.infer e
  let c := c.checkExpr e
  if τ = .boolean then c else c.report (.badCondition τ.name)

/-- A definition of a name the innermost scope already has is not looked at any further. -/
def checkDefinition (c : Checker) (x : String) (e : Expr) : Checker :=
  if c.isDeclaredHere x then c.report (.alreadyDefined x)
  else (c.checkExpr e).declare x (c.infer e)

def checkAssignment (c : Checker) (x : String) (e : Expr) : Checker :=
  match c.fetch? x with
  | none => c.report (.notDefined x)
  | some expected =>
    let received := c.infer e
    let c := c.checkExpr e
    if received = expected then c else c.report (.wrongAssignment x expected.name received.name)

/-- The guard of an arm: compared with the subject if there is one, and a condition if not. -/
def checkGuard (c : Checker) (subject : Option Ty) (guard : Expr) : Checker :=
  if guard.isAbsent then c
  else
    match subject with
    | none => c.checkCondition guard
    | some τ => (c.checkExpr guard).reportAll (Ty.operation .eq τ (c.infer guard)).2

mutual

def checkStmt (c : Checker) : Stmt → Checker
  | .assign x defines e =>
    if e.isAbsent then c else if defines then c.checkDefinition x e else c.checkAssignment x e
  | .branch _ => c
  | .cond e body none => ((c.checkCondition e).push.checkBlock body).pop
  | .cond e body (some alternative) =>
    (((c.checkCondition e).push.checkBlock body).pop.push.checkBlock alternative).pop
  | .switch e arms =>
    let subject := if e.isAbsent then none else some (c.infer e)
    ((c.checkExpr e).push.checkArms subject arms).pop

/-- The statements of a block, in the scope that is open. -/
def checkBlock (c : Checker) : Block → Checker
  | [] => c
  | s :: ss => (c.checkStmt s).checkBlock ss

def checkArms (c : Checker) (subject : Option Ty) : List (Arm Stmt) → Checker
  | [] => c
  | ⟨guard, body⟩ :: arms =>
    ((c.checkGuard subject guard).push.checkBlock body).pop.checkArms subject arms

end

/-- The statements of a block, in a scope of their own. -/
def checkNested (c : Checker) (body : Block) : Checker :=
  (c.push.checkBlock body).pop

def checkProcedure (c : Checker) (p : Procedure) : Checker :=
  c.enterProcedure.checkBlock p.body

end Checker

/-- The checker after all procedures of a program. -/
def Program.check (p : Program) : Checker :=
  p.procedures.foldl Checker.checkProcedure Checker.start

end AddressLines
