import AddressLines.Proofs.Typing.Discipline

/-!
# Procedures are checked apart from each other

One checker goes through all procedures of a program, and its records grow from one to the next. Checking never looks at
them: it gives the same further records behind any earlier ones (`Checker.behind`). As every procedure starts with the
same scopes, the records of a program are those of its procedures, each checked alone, one behind the other.
-/

namespace AddressLines

namespace Checker

/-- The checker with the records of an earlier one before its own. -/
def behind (c earlier : Checker) : Checker :=
  { c with defined := earlier.defined ++ c.defined, faults := earlier.faults ++ c.faults }

variable {c earlier : Checker}

/-! ## Records do not matter -/

@[simp] theorem infer_behind (e : Expr) : (c.behind earlier).infer e = c.infer e := rfl

theorem push_behind : (c.behind earlier).push = c.push.behind earlier := rfl

theorem pop_behind : (c.behind earlier).pop = c.pop.behind earlier := by
  unfold pop behind
  dsimp only
  split <;> rfl

theorem reportAll_behind (faults : List Fault) :
    (c.behind earlier).reportAll faults = (c.reportAll faults).behind earlier := by
  simp only [reportAll, behind, List.append_assoc]

theorem report_behind (cause : Fault.Cause) : (c.behind earlier).report cause = (c.report cause).behind earlier :=
  reportAll_behind [⟨cause, none⟩]

theorem declare_behind (x : String) (τ : Ty) : (c.behind earlier).declare x τ = (c.declare x τ).behind earlier := by
  cases hc : c.scopes with
  | nil => simp [declare, behind, hc]
  | cons s ss =>
    cases hx : s.find? x with
    | none => simp [declare, behind, hc, hx]
    | some σ => simp [declare, behind, hc, hx, report]

theorem checkExpr_behind (e : Expr) : (c.behind earlier).checkExpr e = (c.checkExpr e).behind earlier :=
  reportAll_behind _

theorem checkCondition_behind (e : Expr) :
    (c.behind earlier).checkCondition e = (c.checkCondition e).behind earlier := by
  simp only [checkCondition, infer_behind, checkExpr_behind, report_behind]
  split_ifs <;> rfl

theorem checkDefinition_behind (x : String) (e : Expr) :
    (c.behind earlier).checkDefinition x e = (c.checkDefinition x e).behind earlier := by
  have hhere : (c.behind earlier).isDeclaredHere x = c.isDeclaredHere x := rfl
  simp only [checkDefinition, hhere, infer_behind, checkExpr_behind, report_behind, declare_behind]
  split_ifs <;> rfl

theorem checkAssignment_behind (x : String) (e : Expr) :
    (c.behind earlier).checkAssignment x e = (c.checkAssignment x e).behind earlier := by
  have hfetch : (c.behind earlier).fetch? x = c.fetch? x := rfl
  cases hx : c.fetch? x with
  | none => simp only [checkAssignment, hfetch, hx, report_behind]
  | some expected =>
    simp only [checkAssignment, hfetch, hx, infer_behind, checkExpr_behind, report_behind]
    split_ifs <;> rfl

theorem checkGuard_behind (subject : Option Ty) (guard : Expr) :
    (c.behind earlier).checkGuard subject guard = (c.checkGuard subject guard).behind earlier := by
  unfold checkGuard
  split_ifs
  · rfl
  · cases subject with
    | none => exact checkCondition_behind guard
    | some τ =>
      dsimp only
      rw [infer_behind, checkExpr_behind, reportAll_behind]

mutual

theorem checkStmt_behind : ∀ (s : Stmt) {c : Checker},
    (c.behind earlier).checkStmt s = (c.checkStmt s).behind earlier
  | .assign x defines e, c => by
    rw [checkStmt, checkStmt]
    split_ifs
    · rfl
    · exact checkDefinition_behind x e
    · exact checkAssignment_behind x e
  | .branch _, c => by rw [checkStmt, checkStmt]
  | .cond e body none, c => by
    rw [checkStmt, checkStmt, checkCondition_behind, push_behind, checkBlock_behind, pop_behind]
  | .cond e body (some alternative), c => by
    rw [checkStmt, checkStmt, checkCondition_behind, push_behind, checkBlock_behind, pop_behind, push_behind,
      checkBlock_behind, pop_behind]
  | .switch e arms, c => by
    rw [checkStmt, checkStmt, checkExpr_behind, push_behind, checkArms_behind, pop_behind]
    rfl

theorem checkBlock_behind : ∀ (b : Block) {c : Checker},
    (c.behind earlier).checkBlock b = (c.checkBlock b).behind earlier
  | [], c => by rw [checkBlock, checkBlock]
  | s :: ss, c => by rw [checkBlock, checkBlock, checkStmt_behind, checkBlock_behind]

theorem checkArms_behind : ∀ (arms : List (Arm Stmt)) {c : Checker} {subject : Option Ty},
    (c.behind earlier).checkArms subject arms = (c.checkArms subject arms).behind earlier
  | [], c, subject => by rw [checkArms, checkArms]
  | ⟨guard, body⟩ :: arms, c, subject => by
    rw [checkArms, checkArms, checkGuard_behind, push_behind, checkBlock_behind, pop_behind, checkArms_behind]

end

/-! ## Procedures -/

/-- A procedure is checked as by a new checker, behind the records there are. -/
theorem checkProcedure_eq (c : Checker) (p : Procedure) : c.checkProcedure p = (start.checkProcedure p).behind c := by
  have henter : c.enterProcedure = start.enterProcedure.behind c := by
    simp [enterProcedure, behind, start]
  rw [checkProcedure, henter, checkBlock_behind, ← checkProcedure]

/-- What checking procedures adds does not depend on the checker they are given to. -/
theorem foldl_checkProcedure_eq (c : Checker) (ps : List Procedure) :
    (ps.foldl checkProcedure c).faults = c.faults ++ (ps.foldl checkProcedure start).faults ∧
      (ps.foldl checkProcedure c).defined = c.defined ++ (ps.foldl checkProcedure start).defined := by
  induction ps generalizing c with
  | nil => simp [start]
  | cons p ps ih =>
    obtain ⟨hfaults, hdefined⟩ := ih (c.checkProcedure p)
    obtain ⟨hfaults', hdefined'⟩ := ih (start.checkProcedure p)
    rw [List.foldl_cons, List.foldl_cons, hfaults, hdefined, hfaults', hdefined', checkProcedure_eq c]
    simp only [behind, List.append_assoc, and_self]

end Checker

theorem Program.check_append (p q : Program) (package : Option String) (faults : List Fault) :
    (Program.mk package (p.procedures ++ q.procedures) faults).check.faults = p.check.faults ++ q.check.faults ∧
      (Program.mk package (p.procedures ++ q.procedures) faults).check.defined = p.check.defined ++ q.check.defined := by
  rw [check, List.foldl_append]
  exact Checker.foldl_checkProcedure_eq p.check q.procedures

/-- The program of a single procedure. -/
def Procedure.alone (q : Procedure) : Program where
  procedures := [q]

theorem Program.check_eq_flatMap (p : Program) :
    p.check.faults = p.procedures.flatMap (·.alone.check.faults) ∧
      p.check.defined = p.procedures.flatMap (·.alone.check.defined) := by
  obtain ⟨package, procedures, faults⟩ := p
  induction procedures with
  | nil => exact ⟨rfl, rfl⟩
  | cons q qs ih =>
    obtain ⟨hfaults, hdefined⟩ := q.alone.check_append ⟨package, qs, faults⟩ package faults
    rw [List.flatMap_cons, List.flatMap_cons, ← ih.1, ← ih.2]
    exact ⟨hfaults, hdefined⟩

/-- The faults of a program with the procedures of two programs are the faults of the one and then those of the other,
and so are the variables at each depth. Thus the faults and the variables of a program are those of its procedures, each
checked without the others. -/
theorem Program.check_independent (p q : Program) (package : Option String) (faults : List Fault) :
    (Program.mk package (p.procedures ++ q.procedures) faults).check.faults = p.check.faults ++ q.check.faults ∧
    (∀ k, (Program.mk package (p.procedures ++ q.procedures) faults).check.variablesAt k =
      p.check.variablesAt k ++ q.check.variablesAt k) ∧
    p.check.faults = p.procedures.flatMap (·.alone.check.faults) ∧
    ∀ k, p.check.variablesAt k = p.procedures.flatMap (·.alone.check.variablesAt k) := by
  obtain ⟨hfaults, hdefined⟩ := p.check_append q package faults
  obtain ⟨hfaults', hdefined'⟩ := p.check_eq_flatMap
  refine ⟨hfaults, fun k => ?_, hfaults', fun k => ?_⟩
  · simp only [Checker.variablesAt_eq, hdefined, Definition.atDepth_append]
  · simp only [Checker.variablesAt_eq]
    rw [hdefined', Definition.atDepth, List.filter_flatMap]
    rfl

end AddressLines
