import AddressLines.Proofs.Tree.Names
import AddressLines.Proofs.Typing.Frame

/-!
# What the faults of checking mention

A fault that the checker records is about a variable of the program, about types, or both, and it has no position. Each
check keeps the faults there are and adds faults about the names it looks at (`Checker.Adds`).
-/

namespace AddressLines

namespace Checker

/-- A fault about one of these names, or about types alone. -/
inductive About (xs : List String) : Fault → Prop
  | alreadyDefined {x : String} : x ∈ xs → About xs ⟨.alreadyDefined x, none⟩
  | notDefined {x : String} : x ∈ xs → About xs ⟨.notDefined x, none⟩
  | wrongAssignment {x : String} (expected received : Ty) :
    x ∈ xs → About xs ⟨.wrongAssignment x expected.name received.name, none⟩
  | mismatchedTypes (left right : Ty) : About xs ⟨.mismatchedTypes left.name right.name, none⟩
  | badCondition (τ : Ty) : About xs ⟨.badCondition τ.name, none⟩

theorem About.mono {xs ys : List String} {f : Fault} (hsub : xs ⊆ ys) (h : About xs f) : About ys f := by
  cases h with
  | alreadyDefined hx => exact .alreadyDefined (hsub hx)
  | notDefined hx => exact .notDefined (hsub hx)
  | wrongAssignment expected received hx => exact .wrongAssignment expected received (hsub hx)
  | mismatchedTypes left right => exact .mismatchedTypes left right
  | badCondition τ => exact .badCondition τ

/-- Each fault of the second checker is one of the first, or about these names. -/
def Adds (xs : List String) (c d : Checker) : Prop :=
  ∀ f ∈ d.faults, f ∈ c.faults ∨ About xs f

variable {xs ys : List String} {c d e : Checker}

theorem Adds.of_faults_eq (h : d.faults = c.faults) : Adds xs c d :=
  fun _ hf => .inl (h ▸ hf)

theorem Adds.trans (h : Adds xs c d) (h' : Adds xs d e) : Adds xs c e := by
  intro f hf
  rcases h' f hf with hf | hf
  · exact h f hf
  · exact .inr hf

theorem Adds.mono (hsub : xs ⊆ ys) (h : Adds xs c d) : Adds ys c d :=
  fun f hf => (h f hf).imp_right (About.mono hsub)

theorem reportAll_adds {faults : List Fault} (h : ∀ f ∈ faults, About xs f) : Adds xs c (c.reportAll faults) := by
  intro f hf
  rcases List.mem_append.mp hf with hf | hf
  · exact .inl hf
  · exact .inr (h f hf)

theorem report_adds {cause : Fault.Cause} (h : About xs ⟨cause, none⟩) : Adds xs c (c.report cause) :=
  reportAll_adds (by simpa using h)

/-! ## Expressions -/

theorem eq_of_mem_operation {op : BinOp} {left right : Ty} {f : Fault} (hf : f ∈ (Ty.operation op left right).2) :
    f = ⟨.mismatchedTypes left.name right.name, none⟩ := by
  rw [Ty.operation] at hf
  split_ifs at hf
  · simp at hf
  · exact List.mem_singleton.mp hf

/-- An expression has a fault where a name in it is not known and where operands do not agree. -/
theorem cases_of_mem_infer {look : String → Option Ty} {e : Expr} {f : Fault} (hf : f ∈ (e.infer look).2) :
    (∃ x ∈ e.names, f = ⟨.notDefined x, none⟩) ∨
      ∃ left right : Ty, f = ⟨.mismatchedTypes left.name right.name, none⟩ := by
  induction e with
  | absent => simp [Expr.infer] at hf
  | literal l => simp [Expr.infer] at hf
  | name x =>
    rw [Expr.infer] at hf
    split at hf
    · simp at hf
    · exact .inl ⟨x, List.mem_singleton.mpr rfl, List.mem_singleton.mp hf⟩
  | unary _ e ih => exact ih hf
  | binary l op r ihl ihr =>
    simp only [Expr.infer, List.mem_append] at hf
    rcases hf with (hf | hf) | hf
    · refine (ihl hf).imp_left ?_
      rintro ⟨x, hx, rfl⟩
      exact ⟨x, List.mem_append_left _ hx, rfl⟩
    · refine (ihr hf).imp_left ?_
      rintro ⟨x, hx, rfl⟩
      exact ⟨x, List.mem_append_right _ hx, rfl⟩
    · exact .inr ⟨_, _, eq_of_mem_operation hf⟩

theorem about_of_mem_operation {op : BinOp} {left right : Ty} {f : Fault} (hf : f ∈ (Ty.operation op left right).2) :
    About xs f := by
  rw [eq_of_mem_operation hf]
  exact .mismatchedTypes left right

theorem about_of_mem_infer {look : String → Option Ty} {e : Expr} {f : Fault} (hf : f ∈ (e.infer look).2) :
    About e.names f := by
  rcases cases_of_mem_infer hf with ⟨x, hx, rfl⟩ | ⟨left, right, rfl⟩
  · exact .notDefined hx
  · exact .mismatchedTypes left right

theorem checkExpr_adds (c : Checker) (e : Expr) : Adds e.names c (c.checkExpr e) :=
  reportAll_adds fun _ hf => about_of_mem_infer hf

theorem checkCondition_adds (c : Checker) (e : Expr) : Adds e.names c (c.checkCondition e) := by
  have hexpr := c.checkExpr_adds e
  simp only [checkCondition]
  split_ifs
  · exact hexpr
  · exact hexpr.trans (report_adds (.badCondition _))

theorem declare_adds (c : Checker) (x : String) (τ : Ty) : Adds [x] c (c.declare x τ) := by
  rw [declare]
  split
  · exact .of_faults_eq rfl
  · split_ifs
    · exact report_adds (.alreadyDefined (List.mem_singleton.mpr rfl))
    · exact .of_faults_eq rfl

theorem checkDefinition_adds (c : Checker) (x : String) (e : Expr) :
    Adds (x :: e.names) c (c.checkDefinition x e) := by
  rw [checkDefinition]
  split_ifs
  · exact report_adds (.alreadyDefined (List.mem_cons_self ..))
  · exact ((c.checkExpr_adds e).mono (List.subset_cons_self ..)).trans ((declare_adds _ x _).mono (by simp))

theorem checkAssignment_adds (c : Checker) (x : String) (e : Expr) :
    Adds (x :: e.names) c (c.checkAssignment x e) := by
  have hexpr := (c.checkExpr_adds e).mono (List.subset_cons_self x _)
  simp only [checkAssignment]
  split
  · exact report_adds (.notDefined (List.mem_cons_self ..))
  · split_ifs
    · exact hexpr
    · exact hexpr.trans (report_adds (.wrongAssignment _ _ (List.mem_cons_self ..)))

theorem checkGuard_adds (c : Checker) (subject : Option Ty) (guard : Expr) :
    Adds guard.names c (c.checkGuard subject guard) := by
  unfold checkGuard
  split_ifs
  · exact .of_faults_eq rfl
  · split
    · exact c.checkCondition_adds guard
    · exact (c.checkExpr_adds guard).trans (reportAll_adds fun _ hf => about_of_mem_operation hf)

/-! ## Statements -/

theorem nested_adds (h : Adds xs c.push d) : Adds xs c d.pop := by
  intro f hf
  rw [faults_pop] at hf
  exact h f hf

mutual

theorem checkStmt_adds (c : Checker) (s : Stmt) : Adds s.names c (c.checkStmt s) := by
  cases s with
  | assign x defines e =>
    rw [checkStmt, Stmt.names]
    split_ifs
    · exact .of_faults_eq rfl
    · exact c.checkDefinition_adds x e
    · exact c.checkAssignment_adds x e
  | branch b => exact .of_faults_eq (by rw [checkStmt])
  | cond e body alternative =>
    cases alternative with
    | none =>
      rw [checkStmt, Stmt.names]
      refine ((c.checkCondition_adds e).mono (by simp)).trans (nested_adds ?_)
      exact (checkBlock_adds _ body).mono (by simp)
    | some alternative =>
      rw [checkStmt, Stmt.names]
      refine ((c.checkCondition_adds e).mono (by simp)).trans ?_
      refine .trans (nested_adds ((checkBlock_adds _ body).mono (by simp))) ?_
      exact nested_adds ((checkBlock_adds _ alternative).mono (by simp))
  | switch e arms =>
    rw [checkStmt, Stmt.names]
    refine ((c.checkExpr_adds e).mono (by simp)).trans (nested_adds ?_)
    exact (checkArms_adds _ _ arms).mono (by simp)

theorem checkBlock_adds (c : Checker) (body : Block) : Adds (Block.names body) c (c.checkBlock body) := by
  cases body with
  | nil => exact .of_faults_eq (by rw [checkBlock])
  | cons s ss =>
    rw [checkBlock, Block.names]
    exact ((checkStmt_adds c s).mono (by simp)).trans ((checkBlock_adds _ ss).mono (by simp))

theorem checkArms_adds (c : Checker) (subject : Option Ty) (arms : List (Arm Stmt)) :
    Adds (Arm.allNames arms) c (c.checkArms subject arms) := by
  cases arms with
  | nil => exact .of_faults_eq (by rw [checkArms])
  | cons arm arms =>
    obtain ⟨guard, body⟩ := arm
    rw [checkArms, Arm.allNames]
    refine ((c.checkGuard_adds subject guard).mono (by simp)).trans ?_
    refine .trans (nested_adds ((checkBlock_adds _ body).mono (by simp))) ?_
    exact (checkArms_adds _ subject arms).mono (by simp)

end

/-! ## Programs -/

theorem foldl_checkProcedure_adds (c : Checker) (ps : List Procedure) :
    Adds (ps.flatMap fun p => Block.names p.body) c (ps.foldl checkProcedure c) := by
  induction ps generalizing c with
  | nil => exact .of_faults_eq rfl
  | cons p ps ih =>
    have hbody : Adds (Block.names p.body) c (c.checkProcedure p) := c.enterProcedure.checkBlock_adds p.body
    rw [List.foldl_cons, List.flatMap_cons]
    exact (hbody.mono (by simp)).trans ((ih _).mono (by simp))

end Checker

/-- Checking a program finds faults about its names and types only. -/
theorem Program.about_of_mem_check {p : Program} {f : Fault} (hf : f ∈ p.check.faults) :
    Checker.About p.names f := by
  rcases Checker.start.foldl_checkProcedure_adds p.procedures f hf with hstart | habout
  · simp [Checker.start] at hstart
  · exact habout

end AddressLines
