import AddressLines.Proofs.Typing.Frame

/-!
# Checking move by move

A run of the checker taken apart: it opens and closes scopes, and records faults and definitions one by one. Played from
the start, the moves of a program lead to the checker after all procedures (`Program.play_moves`), so the points of the
run are what the beginnings of these moves lead to.
-/

namespace AddressLines

/-- What the checker does at one time. -/
inductive Move where
  | enterProcedure
  | push
  | pop
  | report (fault : Fault)
  | declare (x : String) (τ : Ty)
deriving DecidableEq, Repr

namespace Checker

def after (c : Checker) : Move → Checker
  | .enterProcedure => c.enterProcedure
  | .push => c.push
  | .pop => c.pop
  | .report f => c.reportAll [f]
  | .declare x τ => c.declare x τ

def play (c : Checker) (moves : List Move) : Checker :=
  moves.foldl after c

/-! ## The moves of a program -/

def exprMoves (c : Checker) (e : Expr) : List Move :=
  (e.infer c.fetch?).2.map .report

def conditionMoves (c : Checker) (e : Expr) : List Move :=
  c.exprMoves e ++
    if c.infer e = .boolean then [] else [.report ⟨.badCondition (c.infer e).name, none⟩]

def definitionMoves (c : Checker) (x : String) (e : Expr) : List Move :=
  if c.isDeclaredHere x then [.report ⟨.alreadyDefined x, none⟩]
  else c.exprMoves e ++ [.declare x (c.infer e)]

def assignmentMoves (c : Checker) (x : String) (e : Expr) : List Move :=
  match c.fetch? x with
  | none => [.report ⟨.notDefined x, none⟩]
  | some expected =>
    c.exprMoves e ++
      if c.infer e = expected then []
      else [.report ⟨.wrongAssignment x expected.name (c.infer e).name, none⟩]

def guardMoves (c : Checker) (subject : Option Ty) (guard : Expr) : List Move :=
  if guard.isAbsent then []
  else
    match subject with
    | none => c.conditionMoves guard
    | some τ => c.exprMoves guard ++ (Ty.operation .eq τ (c.infer guard)).2.map .report

mutual

def stmtMoves (c : Checker) : Stmt → List Move
  | .assign x defines e =>
    if e.isAbsent then [] else if defines then c.definitionMoves x e else c.assignmentMoves x e
  | .branch _ => []
  | .cond e body none =>
    c.conditionMoves e ++ .push :: ((c.checkCondition e).push.blockMoves body ++ [.pop])
  | .cond e body (some alternative) =>
    c.conditionMoves e ++ .push :: ((c.checkCondition e).push.blockMoves body ++
      .pop :: .push :: (((c.checkCondition e).checkNested body).push.blockMoves alternative ++ [.pop]))
  | .switch e arms =>
    let subject := if e.isAbsent then none else some (c.infer e)
    c.exprMoves e ++ .push :: ((c.checkExpr e).push.armMoves subject arms ++ [.pop])

def blockMoves (c : Checker) : Block → List Move
  | [] => []
  | s :: ss => c.stmtMoves s ++ (c.checkStmt s).blockMoves ss

def armMoves (c : Checker) (subject : Option Ty) : List (Arm Stmt) → List Move
  | [] => []
  | ⟨guard, body⟩ :: arms =>
    c.guardMoves subject guard ++ .push :: ((c.checkGuard subject guard).push.blockMoves body ++
      .pop :: ((c.checkGuard subject guard).checkNested body).armMoves subject arms)

end

def procedureMoves (c : Checker) : List Procedure → List Move
  | [] => []
  | p :: ps => .enterProcedure :: (c.enterProcedure.blockMoves p.body ++ (c.checkProcedure p).procedureMoves ps)

/-! ## Playing the moves -/

theorem play_append (c : Checker) (ms ns : List Move) : c.play (ms ++ ns) = (c.play ms).play ns :=
  List.foldl_append

theorem play_cons (c : Checker) (m : Move) (ms : List Move) : c.play (m :: ms) = (c.after m).play ms :=
  rfl

theorem play_report (c : Checker) (fs : List Fault) : c.play (fs.map .report) = c.reportAll fs := by
  induction fs generalizing c with
  | nil => simp [play, reportAll]
  | cons f fs ih =>
    rw [List.map_cons, play_cons, ih]
    simp [after, reportAll]

theorem play_exprMoves (c : Checker) (e : Expr) : c.play (c.exprMoves e) = c.checkExpr e :=
  c.play_report _

theorem play_conditionMoves (c : Checker) (e : Expr) : c.play (c.conditionMoves e) = c.checkCondition e := by
  rw [conditionMoves, play_append, play_exprMoves, checkCondition]
  split_ifs <;> rfl

theorem play_definitionMoves (c : Checker) (x : String) (e : Expr) :
    c.play (c.definitionMoves x e) = c.checkDefinition x e := by
  rw [definitionMoves, checkDefinition]
  split_ifs
  · rfl
  · rw [play_append, play_exprMoves]
    rfl

theorem play_assignmentMoves (c : Checker) (x : String) (e : Expr) :
    c.play (c.assignmentMoves x e) = c.checkAssignment x e := by
  cases hx : c.fetch? x with
  | none =>
    simp only [assignmentMoves, checkAssignment, hx]
    rfl
  | some expected =>
    simp only [assignmentMoves, checkAssignment, hx, play_append, play_exprMoves]
    split_ifs <;> rfl

theorem play_guardMoves (c : Checker) (subject : Option Ty) (guard : Expr) :
    c.play (c.guardMoves subject guard) = c.checkGuard subject guard := by
  unfold guardMoves checkGuard
  split_ifs
  · rfl
  · cases subject with
    | none => exact c.play_conditionMoves guard
    | some τ =>
      dsimp only
      rw [play_append, play_exprMoves, play_report]

mutual

theorem play_stmtMoves (c : Checker) : ∀ s : Stmt, c.play (c.stmtMoves s) = c.checkStmt s
  | .assign x defines e => by
    rw [stmtMoves, checkStmt]
    split_ifs
    · rfl
    · exact c.play_definitionMoves x e
    · exact c.play_assignmentMoves x e
  | .branch _ => by
    rw [stmtMoves, checkStmt]
    rfl
  | .cond e body none => by
    rw [stmtMoves, checkStmt, play_append, play_conditionMoves, play_cons, play_append, after, play_blockMoves]
    rfl
  | .cond e body (some alternative) => by
    rw [stmtMoves, checkStmt, play_append, play_conditionMoves, play_cons, play_append, after, play_blockMoves,
      play_cons, play_cons, play_append, after, after, ← checkNested, play_blockMoves]
    rfl
  | .switch e arms => by
    rw [stmtMoves, checkStmt, play_append, play_exprMoves, play_cons, play_append, after, play_armMoves]
    rfl

theorem play_blockMoves (c : Checker) : ∀ b : Block, c.play (c.blockMoves b) = c.checkBlock b
  | [] => by
    rw [blockMoves, checkBlock]
    rfl
  | s :: ss => by
    rw [blockMoves, checkBlock, play_append, play_stmtMoves, play_blockMoves]

theorem play_armMoves (c : Checker) (subject : Option Ty) : ∀ arms : List (Arm Stmt),
    c.play (c.armMoves subject arms) = c.checkArms subject arms
  | [] => by
    rw [armMoves, checkArms]
    rfl
  | ⟨guard, body⟩ :: arms => by
    rw [armMoves, checkArms, play_append, play_guardMoves, play_cons, play_append, after, play_blockMoves, play_cons,
      after, ← checkNested, play_armMoves]

end

theorem play_procedureMoves (c : Checker) (ps : List Procedure) :
    c.play (c.procedureMoves ps) = ps.foldl checkProcedure c := by
  induction ps generalizing c with
  | nil => rfl
  | cons p ps ih =>
    rw [procedureMoves, play_cons, play_append, after, play_blockMoves, ← checkProcedure, ih, List.foldl_cons]

end Checker

def Program.moves (p : Program) : List Move :=
  Checker.start.procedureMoves p.procedures

theorem Program.play_moves (p : Program) : Checker.start.play p.moves = p.check :=
  Checker.start.play_procedureMoves p.procedures

end AddressLines
