import AddressLines.Proofs.Typing.Agreement

/-!
# Checkers that are alike

What is wrong with a statement depends on two things only: the types of the names that can be seen, and which names the
innermost scope has already. Checkers that agree in both find the same faults and stay alike, however deep their
scopes are. A nested block starts with no names of its own, so for it the types of names are enough.
-/

namespace AddressLines

namespace Checker

variable {c d c' d' c'' d'' : Checker}

/-- Two checkers with open scopes that answer all questions about names in the same way. -/
structure Alike (c d : Checker) : Prop where
  open_left : c.scopes ≠ []
  open_right : d.scopes ≠ []
  fetch : d.fetch? = c.fetch?
  here : d.isDeclaredHere = c.isDeclaredHere

theorem isDeclaredHere_congr (h : d.scopes = c.scopes) : d.isDeclaredHere = c.isDeclaredHere := by
  funext x
  rw [isDeclaredHere, isDeclaredHere, h]

theorem Alike.congr (h : c.Alike d) (hc : c'.scopes = c.scopes) (hd : d'.scopes = d.scopes) : c'.Alike d' := by
  refine ⟨hc ▸ h.open_left, hd ▸ h.open_right, ?_, ?_⟩
  · rw [fetch?_congr hc, fetch?_congr hd, h.fetch]
  · rw [isDeclaredHere_congr hc, isDeclaredHere_congr hd, h.here]

theorem Alike.of_scopes_eq (hopen : c.scopes ≠ []) (h : d.scopes = c.scopes) : c.Alike d :=
  ⟨hopen, h ▸ hopen, fetch?_congr h, isDeclaredHere_congr h⟩

theorem push_alike (h : d.fetch? = c.fetch?) : c.push.Alike d.push := by
  refine ⟨push_open c, push_open d, by rw [fetch?_push, fetch?_push, h], ?_⟩
  funext x
  simp [isDeclaredHere, push, Scope.find?]

theorem Alike.infer (h : c.Alike d) (e : Expr) : d.infer e = c.infer e := by
  rw [Checker.infer, Checker.infer, h.fetch]

/-- Two checkers have gone on to alike ones and have met the same faults on the way. -/
structure Together (c d c' d' : Checker) : Prop where
  alike : c'.Alike d'
  faults : ∃ fs, c'.faults = c.faults ++ fs ∧ d'.faults = d.faults ++ fs

theorem Together.refl (h : c.Alike d) : Together c d c d :=
  ⟨h, [], by simp⟩

theorem Together.trans (h : Together c d c' d') (h' : Together c' d' c'' d'') : Together c d c'' d'' := by
  obtain ⟨fs, hc, hd⟩ := h.faults
  obtain ⟨fs', hc', hd'⟩ := h'.faults
  exact ⟨h'.alike, fs ++ fs', by rw [hc', hc, List.append_assoc], by rw [hd', hd, List.append_assoc]⟩

/-- If one checker ends without faults, so does the other if it began without any. -/
theorem Together.faults_eq_nil (h : Together c d c' d') (hd : c.faults = [] → d.faults = []) (hc' : c'.faults = []) :
    d'.faults = [] := by
  obtain ⟨fs, hc, hd'⟩ := h.faults
  obtain ⟨hnone, rfl⟩ := List.append_eq_nil_iff.mp (hc.symm.trans hc')
  rw [hd', hd hnone, List.append_nil]

/-! ## Expressions and single statements -/

theorem Alike.report (h : c.Alike d) (cause : Fault.Cause) : Together c d (c.report cause) (d.report cause) :=
  ⟨h.congr rfl rfl, [⟨cause, none⟩], rfl, rfl⟩

theorem Alike.reportAll (h : c.Alike d) (fs : List Fault) : Together c d (c.reportAll fs) (d.reportAll fs) :=
  ⟨h.congr rfl rfl, fs, rfl, rfl⟩

theorem Alike.checkExpr (h : c.Alike d) (e : Expr) : Together c d (c.checkExpr e) (d.checkExpr e) := by
  rw [Checker.checkExpr, Checker.checkExpr, h.fetch]
  exact h.reportAll _

theorem Alike.checkCondition (h : c.Alike d) (e : Expr) : Together c d (c.checkCondition e) (d.checkCondition e) := by
  have hexpr := h.checkExpr e
  simp only [Checker.checkCondition]
  rw [h.infer]
  split_ifs
  · exact hexpr
  · exact hexpr.trans (hexpr.alike.report _)

theorem Alike.declare (h : c.Alike d) {x : String} (hx : c.isDeclaredHere x = false) (τ : Ty) :
    Together c d (c.declare x τ) (d.declare x τ) := by
  have hx' : d.isDeclaredHere x = false := by rw [h.here, hx]
  obtain ⟨_, _, _, -, hc⟩ := declare_eq h.open_left hx τ
  obtain ⟨_, _, _, -, hd⟩ := declare_eq h.open_right hx' τ
  refine ⟨⟨(declare_extends h.open_left x τ).open_right, (declare_extends h.open_right x τ).open_right, ?_, ?_⟩, [], ?_, ?_⟩
  · funext y
    rw [fetch?_declare h.open_left hx, fetch?_declare h.open_right hx', h.fetch]
  · funext y
    rw [Bool.eq_iff_iff, isDeclaredHere_declare h.open_left hx, isDeclaredHere_declare h.open_right hx', h.here]
  · simp [hc]
  · simp [hd]

theorem Alike.checkDefinition (h : c.Alike d) (x : String) (e : Expr) :
    Together c d (c.checkDefinition x e) (d.checkDefinition x e) := by
  have hexpr := h.checkExpr e
  rw [Checker.checkDefinition, Checker.checkDefinition, h.here, h.infer]
  split_ifs with hx
  · exact h.report _
  · have hx' : (c.checkExpr e).isDeclaredHere x = false := by
      rw [isDeclaredHere_congr (scopes_checkExpr c e)]
      simpa using hx
    exact hexpr.trans (hexpr.alike.declare hx' _)

theorem Alike.checkAssignment (h : c.Alike d) (x : String) (e : Expr) :
    Together c d (c.checkAssignment x e) (d.checkAssignment x e) := by
  have hexpr := h.checkExpr e
  simp only [Checker.checkAssignment]
  rw [h.fetch, h.infer]
  split
  · exact h.report _
  · split_ifs
    · exact hexpr
    · exact hexpr.trans (hexpr.alike.report _)

theorem Alike.checkGuard (h : c.Alike d) (subject : Option Ty) (guard : Expr) :
    Together c d (c.checkGuard subject guard) (d.checkGuard subject guard) := by
  have hexpr := h.checkExpr guard
  unfold Checker.checkGuard
  rw [h.infer]
  split_ifs
  · exact .refl h
  · split
    · exact h.checkCondition guard
    · exact hexpr.trans (hexpr.alike.reportAll _)

/-! ## Statements and blocks -/

/-- Closing the scope of a nested block gives back alike checkers. -/
theorem Alike.nested (h : c.Alike d) (hc : c.push.Extends c') (hd : d.push.Extends d')
    (hin : Together c.push d.push c' d') : Together c d c'.pop d'.pop := by
  refine ⟨h.congr (scopes_pop_of_extends h.open_left hc) (scopes_pop_of_extends h.open_right hd), ?_⟩
  simpa using hin.faults

mutual

theorem checkStmt_together : ∀ (s : Stmt) {c d : Checker}, c.Alike d → Together c d (c.checkStmt s) (d.checkStmt s)
  | .assign x defines e, c, d, h => by
    rw [checkStmt, checkStmt]
    split_ifs
    · exact .refl h
    · exact h.checkDefinition x e
    · exact h.checkAssignment x e
  | .branch _, c, d, h => by
    rw [checkStmt, checkStmt]
    exact .refl h
  | .cond e body none, c, d, h => by
    rw [checkStmt_cond, checkStmt_cond]
    have hcond := h.checkCondition e
    exact hcond.trans (checkNested_together body hcond.alike)
  | .cond e body (some alternative), c, d, h => by
    rw [checkStmt_condElse, checkStmt_condElse]
    have hcond := h.checkCondition e
    have hbody := hcond.trans (checkNested_together body hcond.alike)
    exact hbody.trans (checkNested_together alternative hbody.alike)
  | .switch e arms, c, d, h => by
    rw [checkStmt, checkStmt]
    have hexpr := h.checkExpr e
    simp only [h.infer]
    exact hexpr.trans (hexpr.alike.nested (checkArms_extends arms (push_open _)) (checkArms_extends arms (push_open _))
      (checkArms_together arms (push_alike hexpr.alike.fetch)))

theorem checkBlock_together : ∀ (b : Block) {c d : Checker}, c.Alike d → Together c d (c.checkBlock b) (d.checkBlock b)
  | [], c, d, h => by
    rw [checkBlock, checkBlock]
    exact .refl h
  | s :: ss, c, d, h => by
    rw [checkBlock, checkBlock]
    have hs := checkStmt_together s h
    exact hs.trans (checkBlock_together ss hs.alike)

theorem checkNested_together (b : Block) {c d : Checker} (h : c.Alike d) :
    Together c d (c.checkNested b) (d.checkNested b) :=
  h.nested (checkBlock_extends b (push_open c)) (checkBlock_extends b (push_open d))
    (checkBlock_together b (push_alike h.fetch))

theorem checkArms_together : ∀ (arms : List (Arm Stmt)) {subject : Option Ty} {c d : Checker}, c.Alike d →
    Together c d (c.checkArms subject arms) (d.checkArms subject arms)
  | [], subject, c, d, h => by
    rw [checkArms, checkArms]
    exact .refl h
  | ⟨guard, body⟩ :: arms, subject, c, d, h => by
    rw [checkArms_cons, checkArms_cons]
    have hguard := h.checkGuard subject guard
    have hbody := hguard.trans (checkNested_together body hguard.alike)
    exact hbody.trans (checkArms_together arms hbody.alike)

end

end Checker

end AddressLines
