import AddressLines.Typing.Check
import Mathlib.Tactic.SplitIfs

/-!
# What checking leaves alone

Checking a statement only adds: names to the innermost scope, definitions to the log, faults to the list. All
other scopes stay as they are, and a nested block leaves the scopes exactly as it found them.
-/

namespace AddressLines

namespace Checker

variable {c d : Checker}

/-- The second checker comes from the first by additions in the innermost scope, the log and the faults. -/
structure Extends (c d : Checker) : Prop where
  scopes : ∃ s t ss, c.scopes = s :: ss ∧ d.scopes = t :: ss ∧ t.depth = s.depth ∧ s.entries <+: t.entries
  defined : c.defined <+: d.defined
  faults : c.faults <+: d.faults

theorem Extends.of_scopes_eq (hopen : c.scopes ≠ []) (hscopes : d.scopes = c.scopes)
    (hdefined : c.defined <+: d.defined) (hfaults : c.faults <+: d.faults) : c.Extends d := by
  cases hc : c.scopes with
  | nil => exact absurd hc hopen
  | cons s ss => exact ⟨⟨s, s, ss, hc, hscopes.trans hc, rfl, List.prefix_rfl⟩, hdefined, hfaults⟩

theorem Extends.refl (hopen : c.scopes ≠ []) : c.Extends c :=
  .of_scopes_eq hopen rfl List.prefix_rfl List.prefix_rfl

theorem Extends.trans {e : Checker} (h : c.Extends d) (h' : d.Extends e) : c.Extends e := by
  obtain ⟨s, t, ss, hc, hd, hdepth, hentries⟩ := h.scopes
  obtain ⟨t', u, ss', hd', he, hdepth', hentries'⟩ := h'.scopes
  obtain ⟨rfl, rfl⟩ : t = t' ∧ ss = ss' := by simpa using hd.symm.trans hd'
  exact ⟨⟨s, u, ss, hc, he, hdepth'.trans hdepth, hentries.trans hentries'⟩, h.defined.trans h'.defined,
    h.faults.trans h'.faults⟩

theorem Extends.open_right (h : c.Extends d) : d.scopes ≠ [] := by
  obtain ⟨s, t, ss, -, hd, -, -⟩ := h.scopes
  simp [hd]

/-! ## Expressions and single statements -/

@[simp] theorem scopes_checkExpr (c : Checker) (e : Expr) : (c.checkExpr e).scopes = c.scopes := rfl

theorem report_extends (hopen : c.scopes ≠ []) (cause : Fault.Cause) : c.Extends (c.report cause) :=
  .of_scopes_eq hopen rfl List.prefix_rfl (List.prefix_append _ _)

theorem reportAll_extends (hopen : c.scopes ≠ []) (faults : List Fault) : c.Extends (c.reportAll faults) :=
  .of_scopes_eq hopen rfl List.prefix_rfl (List.prefix_append _ _)

theorem checkExpr_extends (hopen : c.scopes ≠ []) (e : Expr) : c.Extends (c.checkExpr e) :=
  reportAll_extends hopen _

@[simp] theorem scopes_checkCondition (c : Checker) (e : Expr) : (c.checkCondition e).scopes = c.scopes := by
  simp only [checkCondition]
  split_ifs <;> rfl

theorem checkCondition_extends (hopen : c.scopes ≠ []) (e : Expr) : c.Extends (c.checkCondition e) := by
  have hexpr := checkExpr_extends hopen e
  simp only [checkCondition]
  split_ifs
  · exact hexpr
  · exact hexpr.trans (report_extends hexpr.open_right _)

@[simp] theorem scopes_checkAssignment (c : Checker) (x : String) (e : Expr) :
    (c.checkAssignment x e).scopes = c.scopes := by
  simp only [checkAssignment]
  split
  · rfl
  · split_ifs <;> rfl

theorem checkAssignment_extends (hopen : c.scopes ≠ []) (x : String) (e : Expr) :
    c.Extends (c.checkAssignment x e) := by
  have hexpr := checkExpr_extends hopen e
  simp only [checkAssignment]
  split
  · exact report_extends hopen _
  · split_ifs
    · exact hexpr
    · exact hexpr.trans (report_extends hexpr.open_right _)

theorem declare_extends (hopen : c.scopes ≠ []) (x : String) (τ : Ty) : c.Extends (c.declare x τ) := by
  unfold declare
  split
  · rename_i hc
    exact absurd hc hopen
  · rename_i s ss hc
    split_ifs
    · exact report_extends hopen _
    · exact ⟨⟨s, s.add x τ, ss, hc, rfl, rfl, List.prefix_append _ _⟩, List.prefix_append _ _, List.prefix_rfl⟩

theorem checkDefinition_extends (hopen : c.scopes ≠ []) (x : String) (e : Expr) :
    c.Extends (c.checkDefinition x e) := by
  have hexpr := checkExpr_extends hopen e
  simp only [checkDefinition]
  split_ifs
  · exact report_extends hopen _
  · exact hexpr.trans (declare_extends hexpr.open_right x _)

@[simp] theorem scopes_checkGuard (c : Checker) (subject : Option Ty) (guard : Expr) :
    (c.checkGuard subject guard).scopes = c.scopes := by
  unfold checkGuard
  split_ifs
  · rfl
  · split
    · exact scopes_checkCondition c guard
    · rfl

theorem checkGuard_extends (hopen : c.scopes ≠ []) (subject : Option Ty) (guard : Expr) :
    c.Extends (c.checkGuard subject guard) := by
  unfold checkGuard
  split_ifs
  · exact .refl hopen
  · split
    · exact checkCondition_extends hopen guard
    · have hexpr := checkExpr_extends hopen guard
      exact hexpr.trans (reportAll_extends hexpr.open_right _)

/-! ## Nested blocks -/

/-- Closing the scope of a nested block gives back the scopes from before it. -/
theorem scopes_pop_of_extends (hopen : c.scopes ≠ []) (h : c.push.Extends d) : d.pop.scopes = c.scopes := by
  obtain ⟨s, t, ss, hpush, hd, -, -⟩ := h.scopes
  obtain ⟨-, rfl⟩ : _ = s ∧ c.scopes = ss := by simpa [push] using hpush
  cases hc : c.scopes with
  | nil => exact absurd hc hopen
  | cons u us =>
    rw [hc] at hd
    simp only [pop, hd]

@[simp] theorem faults_push (c : Checker) : c.push.faults = c.faults := rfl

@[simp] theorem faults_pop (c : Checker) : c.pop.faults = c.faults := by
  unfold pop
  split <;> rfl

@[simp] theorem defined_pop (c : Checker) : c.pop.defined = c.defined := by
  unfold pop
  split <;> rfl

theorem nested_extends (hopen : c.scopes ≠ []) (h : c.push.Extends d) : c.Extends d.pop := by
  refine .of_scopes_eq hopen (scopes_pop_of_extends hopen h) ?_ ?_
  · rw [defined_pop]
    exact h.defined
  · rw [faults_pop]
    exact h.faults

theorem push_open (c : Checker) : c.push.scopes ≠ [] := by
  simp [push]

mutual

theorem checkStmt_extends : ∀ (s : Stmt) {c : Checker}, c.scopes ≠ [] → c.Extends (c.checkStmt s)
  | .assign x defines e, c, hopen => by
    rw [checkStmt]
    split_ifs
    · exact .refl hopen
    · exact checkDefinition_extends hopen x e
    · exact checkAssignment_extends hopen x e
  | .branch _, c, hopen => by
    rw [checkStmt]
    exact .refl hopen
  | .cond e body none, c, hopen => by
    rw [checkStmt]
    have hcond := checkCondition_extends hopen e
    exact hcond.trans (nested_extends hcond.open_right (checkBlock_extends body (push_open _)))
  | .cond e body (some alternative), c, hopen => by
    rw [checkStmt]
    have hcond := checkCondition_extends hopen e
    have hbody := hcond.trans (nested_extends hcond.open_right (checkBlock_extends body (push_open _)))
    exact hbody.trans (nested_extends hbody.open_right (checkBlock_extends alternative (push_open _)))
  | .switch e arms, c, hopen => by
    rw [checkStmt]
    have hexpr := checkExpr_extends hopen e
    exact hexpr.trans (nested_extends hexpr.open_right (checkArms_extends arms (push_open _)))

theorem checkBlock_extends : ∀ (b : Block) {c : Checker}, c.scopes ≠ [] → c.Extends (c.checkBlock b)
  | [], c, hopen => by
    rw [checkBlock]
    exact .refl hopen
  | s :: ss, c, hopen => by
    rw [checkBlock]
    have hs := checkStmt_extends s hopen
    exact hs.trans (checkBlock_extends ss hs.open_right)

theorem checkArms_extends : ∀ (arms : List (Arm Stmt)) {c : Checker} {subject : Option Ty}, c.scopes ≠ [] →
    c.Extends (c.checkArms subject arms)
  | [], c, subject, hopen => by
    rw [checkArms]
    exact .refl hopen
  | ⟨guard, body⟩ :: arms, c, subject, hopen => by
    rw [checkArms]
    have hguard := checkGuard_extends hopen subject guard
    have hbody := hguard.trans (nested_extends hguard.open_right (checkBlock_extends body (push_open _)))
    exact hbody.trans (checkArms_extends arms hbody.open_right)

end

theorem scopes_checkNested (hopen : c.scopes ≠ []) (body : Block) : (c.checkNested body).scopes = c.scopes :=
  scopes_pop_of_extends hopen (checkBlock_extends body (push_open c))

theorem checkStmt_cond (c : Checker) (e : Expr) (body : Block) :
    c.checkStmt (.cond e body none) = (c.checkCondition e).checkNested body := by
  rw [checkStmt, checkNested]

theorem checkStmt_condElse (c : Checker) (e : Expr) (body alternative : Block) :
    c.checkStmt (.cond e body (some alternative)) =
      ((c.checkCondition e).checkNested body).checkNested alternative := by
  rw [checkStmt, checkNested, checkNested]

theorem checkArms_cons (c : Checker) (subject : Option Ty) (arm : Arm Stmt) (arms : List (Arm Stmt)) :
    c.checkArms subject (arm :: arms) =
      ((c.checkGuard subject arm.guard).checkNested arm.body).checkArms subject arms := by
  rw [checkArms, checkNested]

end Checker

end AddressLines
