import AddressLines.Proofs.Tree.Whole
import AddressLines.Proofs.Typing.Frame
import AddressLines.Proofs.Typing.Place

/-!
# The checker and the type system

The checker finds no fault in a whole program exactly when the program is well typed. While no fault is found, the
open scopes know at each place what the type system says there: which names the block has defined, and which type
every visible name has.
-/

namespace AddressLines

variable {Γ : Place} {before b : Block} {s : Stmt} {x y : String} {e : Expr} {σ τ : Ty}

/-! ## Expressions -/

theorem BinOp.isComparison_iff {op : BinOp} : op.isComparison = true ↔ op.Compares := by
  cases op <;> simp [BinOp.isComparison, BinOp.Compares]

theorem Ty.isNumeric_iff : τ.isNumeric = true ↔ τ.IsNumber := by
  cases τ <;> simp [Ty.isNumeric, Ty.IsNumber]

theorem Ty.agrees_iff : σ.agrees τ = true ↔ σ.Matches τ := by
  simp [Ty.agrees, Ty.Matches, Ty.isNumeric_iff]

theorem Ty.operation_eq_iff {op : BinOp} {ρ : Ty} :
    Ty.operation op σ τ = (ρ, []) ↔ σ.Matches τ ∧ Ty.ofOperation op σ τ = ρ := by
  rw [← Ty.agrees_iff]
  simp only [Ty.operation]
  split_ifs with h <;> simp [h]

theorem Expr.hasType_binary_iff {l r : Expr} {op : BinOp} {ρ : Ty} :
    (Expr.binary l op r).HasType Γ ρ ↔
      ∃ σ τ, l.HasType Γ σ ∧ r.HasType Γ τ ∧ Ty.operation op σ τ = (ρ, []) := by
  simp only [Ty.operation_eq_iff, Ty.ofOperation]
  constructor
  · intro h
    cases h with
    | comparison hop hl hr hm => exact ⟨_, _, hl, hr, hm, by simp [BinOp.isComparison_iff.mpr hop]⟩
    | same hop hl hr =>
      rw [← BinOp.isComparison_iff] at hop
      exact ⟨_, _, hl, hr, .inl rfl, by simp [hop]⟩
    | mixed hop hl hr hne hm =>
      rw [← BinOp.isComparison_iff] at hop
      exact ⟨_, _, hl, hr, hm, by simp [hop, hne]⟩
  · rintro ⟨σ, τ, hl, hr, hm, rfl⟩
    split_ifs with hop heq
    · exact .comparison (BinOp.isComparison_iff.mp hop) hl hr hm
    · subst heq
      exact .same (mt BinOp.isComparison_iff.mpr hop) hl hr
    · exact .mixed (mt BinOp.isComparison_iff.mpr hop) hl hr heq hm

/-- The types that `look` tells for names are those at the place. -/
def Expr.Tells (look : String → Option Ty) (Γ : Place) : Prop :=
  ∀ x τ, look x = some τ ↔ (Expr.name x).HasType Γ τ

theorem Expr.infer_eq_iff {look : String → Option Ty} (hlook : Expr.Tells look Γ) (he : e.isWhole = true) :
    e.infer look = (τ, []) ↔ e.HasType Γ τ := by
  induction e generalizing τ with
  | absent => simp [isWhole] at he
  | literal l =>
    refine ⟨fun h => ?_, fun h => ?_⟩
    · obtain rfl : l.ty = τ := by simpa [infer] using h
      cases l <;> constructor
    · cases h <;> rfl
  | name x =>
    rw [← hlook x τ, infer]
    cases look x <;> simp
  | unary op e ih =>
    rw [infer, ih he]
    exact ⟨.unary, fun h => by cases h; assumption⟩
  | binary l op r ihl ihr =>
    simp only [isWhole, Bool.and_eq_true] at he
    simp only [hasType_binary_iff, ← ihl he.1, ← ihr he.2, infer, Prod.ext_iff, List.append_eq_nil_iff]
    constructor
    · rintro ⟨hτ, ⟨hl, hr⟩, hop⟩
      exact ⟨_, _, ⟨rfl, hl⟩, ⟨rfl, hr⟩, hτ, hop⟩
    · rintro ⟨σ, ρ, ⟨rfl, hl⟩, ⟨rfl, hr⟩, hτ, hop⟩
      exact ⟨hτ, ⟨hl, hr⟩, hop⟩

theorem Expr.snd_infer_eq_nil_iff {look : String → Option Ty} (hlook : Expr.Tells look Γ)
    (he : e.isWhole = true) : (e.infer look).2 = [] ↔ ∃ τ, e.HasType Γ τ := by
  simp only [← infer_eq_iff hlook he, Prod.ext_iff]
  exact ⟨fun h => ⟨_, rfl, h⟩, fun ⟨_, _, h⟩ => h⟩

theorem Expr.isAbsent_iff : e.isAbsent = true ↔ e = .absent := by
  cases e <;> simp [isAbsent]

@[simp] theorem Scope.find?_add (sc : Scope) (x : String) (τ : Ty) (y : String) :
    (sc.add x τ).find? y = (sc.find? y).or (if y = x then some τ else none) := by
  by_cases h : y = x
  · simp [Scope.find?, Scope.add, List.lookup_append, h]
  · simp [Scope.find?, Scope.add, List.lookup_append, List.lookup_cons, beq_false_of_ne h, h]

namespace Checker

variable {c : Checker}

/-! ## What the scopes know -/

/-- The scopes know the names of the innermost block and the types of all names at a place. -/
structure Knows (c : Checker) (before : Block) (Γ : Place) : Prop where
  isOpen : c.scopes ≠ []
  here : ∀ x, c.isDeclaredHere x = true ↔ x ∈ Block.defined before
  tells : Expr.Tells c.fetch? (before :: Γ)

theorem fetch?_congr {d : Checker} (h : d.scopes = c.scopes) : d.fetch? = c.fetch? := by
  funext x
  rw [fetch?, fetch?, h]

@[simp] theorem fetch?_push (c : Checker) : c.push.fetch? = c.fetch? := by
  funext x
  simp [fetch?, push, Scope.find?, List.findSome?_cons]

theorem push_knows (h : Expr.Tells c.fetch? Γ) : c.push.Knows [] Γ := by
  refine ⟨push_open c, fun x => ?_, fun x τ => ?_⟩
  · simp [isDeclaredHere, push, Scope.find?, Block.defined]
  · rw [fetch?_push, Expr.hasType_name_nil]
    exact h x τ

theorem enterProcedure_knows (c : Checker) : c.enterProcedure.Knows [] [] := by
  refine ⟨by simp [enterProcedure, outermost], fun x => ?_, fun x τ => ?_⟩
  · simp [isDeclaredHere, enterProcedure, outermost, Scope.find?, Block.defined]
  · rw [Expr.hasType_name_nil]
    refine ⟨fun h => ?_, fun h => ?_⟩
    · simp [fetch?, enterProcedure, outermost, Scope.find?] at h
    · cases h

theorem Knows.congr {d : Checker} (h : c.Knows before Γ) (hscopes : d.scopes = c.scopes) : d.Knows before Γ := by
  refine ⟨hscopes ▸ h.isOpen, fun x => ?_, fetch?_congr hscopes ▸ h.tells⟩
  rw [← h.here, isDeclaredHere, isDeclaredHere, hscopes]

/-- A statement that defines no name adds nothing to what the scopes know. -/
theorem Knows.append (h : c.Knows before Γ) (hs : s.defined? = none) : c.Knows (before ++ [s]) Γ := by
  refine ⟨h.isOpen, fun x => ?_, fun x τ => ?_⟩
  · rw [h.here, Block.mem_defined_append]
    simp [hs]
  · rw [Expr.hasType_name_append (by simp [hs])]
    exact h.tells x τ

/-! ## Definitions -/

theorem declare_eq (hopen : c.scopes ≠ []) (hx : c.isDeclaredHere x = false) (τ : Ty) :
    ∃ sc scs, c.scopes = sc :: scs ∧ sc.find? x = none ∧
      c.declare x τ = ⟨sc.add x τ :: scs, c.defined ++ [⟨sc.depth, x, τ⟩], c.faults⟩ := by
  cases hc : c.scopes with
  | nil => exact absurd hc hopen
  | cons sc scs =>
    have hfind : sc.find? x = none := by simpa [isDeclaredHere, hc] using hx
    exact ⟨sc, scs, rfl, hfind, by simp [declare, hc, hfind]⟩

theorem isDeclaredHere_declare (hopen : c.scopes ≠ []) (hx : c.isDeclaredHere x = false) (y : String) :
    (c.declare x τ).isDeclaredHere y = true ↔ c.isDeclaredHere y = true ∨ x = y := by
  obtain ⟨sc, scs, hc, -, hdeclare⟩ := declare_eq hopen hx τ
  simp only [isDeclaredHere, hc, hdeclare]
  by_cases h : y = x
  · simp [h]
  · simp [h, Ne.symm h]

theorem fetch?_declare (hopen : c.scopes ≠ []) (hx : c.isDeclaredHere x = false) (y : String) :
    (c.declare x τ).fetch? y = if y = x then some τ else c.fetch? y := by
  obtain ⟨sc, scs, hc, hfind, hdeclare⟩ := declare_eq hopen hx τ
  simp only [fetch?, hc, hdeclare, List.findSome?_cons]
  split_ifs with h
  · simp [h, hfind]
  · simp [h]

theorem Knows.declare (h : c.Knows before Γ) (hx : x ∉ Block.defined before)
    (he : e.isWhole = true) (hτ : e.HasType (before :: Γ) τ) :
    (c.declare x τ).Knows (before ++ [.assign x true e]) Γ := by
  have hhere : c.isDeclaredHere x = false := by simpa [← h.here] using hx
  refine ⟨(declare_extends h.isOpen x τ).open_right, fun y => ?_, fun y σ => ?_⟩
  · rw [isDeclaredHere_declare h.isOpen hhere, h.here, Block.mem_defined_append]
    simp [Stmt.defined?]
  · rw [fetch?_declare h.isOpen hhere]
    split_ifs with hy
    · rw [hy, Expr.hasType_name_define hx, ← Expr.infer_eq_iff h.tells he]
      rw [(Expr.infer_eq_iff h.tells he).mpr hτ]
      simp
    · rw [Expr.hasType_name_append (by simpa [Stmt.defined?] using Ne.symm hy)]
      exact h.tells y σ

/-! ## Single statements -/

theorem faults_checkExpr_iff (h : Expr.Tells c.fetch? Γ) (he : e.isWhole = true) :
    (c.checkExpr e).faults = [] ↔ c.faults = [] ∧ ∃ τ, e.HasType Γ τ := by
  rw [← Expr.snd_infer_eq_nil_iff h he]
  exact List.append_eq_nil_iff

theorem infer_eq (h : Expr.Tells c.fetch? Γ) (he : e.isWhole = true) (hτ : e.HasType Γ τ) : c.infer e = τ := by
  rw [infer, (Expr.infer_eq_iff h he).mpr hτ]

/-- An expression without faults whose inferred type passes a test has a type that passes it. -/
theorem faults_checkExpr_and_iff (h : Expr.Tells c.fetch? Γ) (he : e.isWhole = true) (P : Ty → Prop) :
    (c.checkExpr e).faults = [] ∧ P (c.infer e) ↔ c.faults = [] ∧ ∃ τ, e.HasType Γ τ ∧ P τ := by
  rw [faults_checkExpr_iff h he]
  constructor
  · rintro ⟨⟨hc, τ, hτ⟩, hP⟩
    exact ⟨hc, τ, hτ, infer_eq h he hτ ▸ hP⟩
  · rintro ⟨hc, τ, hτ, hP⟩
    exact ⟨⟨hc, τ, hτ⟩, (infer_eq h he hτ).symm ▸ hP⟩

theorem faults_report_ne_nil (c : Checker) (cause : Fault.Cause) : (c.report cause).faults ≠ [] := by
  simp [report]

theorem faults_checkCondition_iff (h : Expr.Tells c.fetch? Γ) (he : e.isWhole = true) :
    (c.checkCondition e).faults = [] ↔ c.faults = [] ∧ e.HasType Γ .boolean := by
  have htest : (c.checkCondition e).faults = [] ↔ (c.checkExpr e).faults = [] ∧ c.infer e = .boolean := by
    simp only [checkCondition]
    split_ifs with hτ <;> simp [hτ, faults_report_ne_nil]
  rw [htest, faults_checkExpr_and_iff h he (· = .boolean)]
  simp

theorem faults_checkAssignment_iff (h : Expr.Tells c.fetch? Γ) (he : e.isWhole = true) :
    (c.checkAssignment x e).faults = [] ↔
      c.faults = [] ∧ ∃ τ, (Expr.name x).HasType Γ τ ∧ e.HasType Γ τ := by
  simp only [← h x]
  cases hx : c.fetch? x with
  | none => simp [checkAssignment, hx, faults_report_ne_nil]
  | some σ =>
    have htest : (c.checkAssignment x e).faults = [] ↔ (c.checkExpr e).faults = [] ∧ c.infer e = σ := by
      simp only [checkAssignment, hx]
      split_ifs with hσ <;> simp [hσ, faults_report_ne_nil]
    rw [htest, faults_checkExpr_and_iff h he (· = σ)]
    simp

theorem faults_checkDefinition_iff (h : c.Knows before Γ) (he : e.isWhole = true) :
    (c.checkDefinition x e).faults = [] ↔
      c.faults = [] ∧ x ∉ Block.defined before ∧ ∃ τ, e.HasType (before :: Γ) τ := by
  rw [← h.here, checkDefinition]
  split_ifs with hx
  · simp [hx, faults_report_ne_nil]
  · have hexpr := h.congr (scopes_checkExpr c e)
    have hhere : (c.checkExpr e).isDeclaredHere x = false := by rwa [Bool.eq_false_iff, ne_eq, hexpr.here, ← h.here]
    obtain ⟨sc, scs, -, -, hdeclare⟩ := declare_eq hexpr.isOpen hhere (c.infer e)
    rw [hdeclare, faults_checkExpr_iff h.tells he]
    simp [hx]

theorem faults_checkGuard_iff {guard : Expr} (h : Expr.Tells c.fetch? Γ)
    (hguard : (guard.isAbsent || guard.isWhole) = true) (subject : Option Ty) :
    (c.checkGuard subject guard).faults = [] ↔
      c.faults = [] ∧ (guard = .absent ∨ guard.Fits Γ subject) := by
  cases habsent : guard.isAbsent with
  | true =>
    have heq : guard = .absent := Expr.isAbsent_iff.mp habsent
    simp [checkGuard, heq, Expr.isAbsent]
  | false =>
    have hwhole : guard.isWhole = true := by simpa [habsent] using hguard
    have hne : guard ≠ .absent := fun heq => by simp [heq, Expr.isAbsent] at habsent
    cases subject with
    | none => simpa [checkGuard, habsent, hne, Expr.Fits] using faults_checkCondition_iff h hwhole
    | some σ =>
      have htest : (c.checkGuard (some σ) guard).faults = [] ↔
          (c.checkExpr guard).faults = [] ∧ σ.Matches (c.infer guard) := by
        simp only [checkGuard, habsent, Bool.false_eq_true, if_false, ← Ty.agrees_iff, Ty.operation]
        split_ifs with hm <;> simp [hm, reportAll]
      rw [htest, faults_checkExpr_and_iff h hwhole σ.Matches]
      simp [hne, Expr.Fits]

/-! ## Statements and blocks -/

/-- Only a definition changes the scopes. -/
theorem scopes_checkStmt (hopen : c.scopes ≠ []) (hs : s.defined? = none) : (c.checkStmt s).scopes = c.scopes := by
  match s with
  | .assign x false e =>
    rw [checkStmt]
    split_ifs <;> simp_all
  | .branch _ => rw [checkStmt]
  | .cond e body none =>
    have hcond := checkCondition_extends hopen e
    rw [checkStmt_cond, scopes_checkNested hcond.open_right, scopes_checkCondition]
  | .cond e body (some alternative) =>
    have hcond := checkCondition_extends hopen e
    have hbody := scopes_checkNested hcond.open_right body
    rw [checkStmt_condElse, scopes_checkNested (hbody ▸ hcond.open_right), hbody, scopes_checkCondition]
  | .switch e arms =>
    rw [checkStmt]
    have hexpr := checkExpr_extends hopen e
    rw [scopes_pop_of_extends hexpr.open_right (checkArms_extends arms (push_open _)), scopes_checkExpr]

theorem Knows.checkStmt (h : c.Knows before Γ) (hs : s.isWhole = true) (hnone : (c.checkStmt s).faults = []) :
    (c.checkStmt s).Knows (before ++ [s]) Γ := by
  match s with
  | .assign x true e =>
    have he : e.isWhole = true := by simpa [Stmt.isWhole] using hs
    have heq : c.checkStmt (.assign x true e) = c.checkDefinition x e := by
      simp [Checker.checkStmt, Expr.isAbsent_of_isWhole he]
    rw [heq] at hnone ⊢
    obtain ⟨-, hx, τ, hτ⟩ := (faults_checkDefinition_iff h he).mp hnone
    have hhere : c.isDeclaredHere x = false := by simpa [← h.here] using hx
    rw [checkDefinition, hhere, if_neg (by simp), infer_eq h.tells he hτ]
    exact (h.congr (scopes_checkExpr c e)).declare hx he hτ
  | .assign x false e => exact (h.congr (scopes_checkStmt h.isOpen rfl)).append rfl
  | .branch word => exact (h.congr (scopes_checkStmt h.isOpen rfl)).append rfl
  | .cond e body alternative => exact (h.congr (scopes_checkStmt h.isOpen rfl)).append rfl
  | .switch e arms => exact (h.congr (scopes_checkStmt h.isOpen rfl)).append rfl

/-- From the statements of a nested block to the block in its scope. -/
theorem faults_checkNested_iff
    (h : (c.push.checkBlock b).faults = [] ↔ c.push.faults = [] ∧ Block.Continues Γ [] b) :
    (c.checkNested b).faults = [] ↔ c.faults = [] ∧ Block.WellTyped Γ b := by
  rw [checkNested, faults_pop, h, faults_push, Block.wellTyped_iff_continues]

mutual

theorem faults_checkStmt_iff : ∀ (s : Stmt) {c : Checker} {before : Block} {Γ : Place}, s.isWhole = true →
    c.Knows before Γ → ((c.checkStmt s).faults = [] ↔
      c.faults = [] ∧ s.WellTyped (before :: Γ) ∧ ∀ x, s.defined? = some x → x ∉ Block.defined before)
  | .assign x true e, c, before, Γ, hs, h => by
    have he : e.isWhole = true := by simpa [Stmt.isWhole] using hs
    simp only [checkStmt, Expr.isAbsent_of_isWhole he, Bool.false_eq_true, if_false, if_true]
    rw [faults_checkDefinition_iff h he, Stmt.wellTyped_define_iff]
    simp [Stmt.defined?, and_comm]
  | .assign x false e, c, before, Γ, hs, h => by
    have he : e.isWhole = true := by simpa [Stmt.isWhole] using hs
    simp only [checkStmt, Expr.isAbsent_of_isWhole he, Bool.false_eq_true, if_false]
    rw [faults_checkAssignment_iff h.tells he, Stmt.wellTyped_assign_iff]
    simp [Stmt.defined?]
  | .branch word, c, before, Γ, _, _ => by
    simp [checkStmt, Stmt.defined?, Stmt.WellTyped.branch]
  | .cond e body none, c, before, Γ, hs, h => by
    obtain ⟨he, hbody⟩ : e.isWhole = true ∧ Block.isWhole body = true := by simpa [Stmt.isWhole] using hs
    have hcond := h.congr (scopes_checkCondition c e)
    rw [checkStmt_cond, faults_checkNested_iff (faults_checkBlock_iff body hbody (push_knows hcond.tells)),
      faults_checkCondition_iff h.tells he, Stmt.wellTyped_cond_iff]
    simp [Stmt.defined?, and_assoc]
  | .cond e body (some alternative), c, before, Γ, hs, h => by
    obtain ⟨⟨he, hbody⟩, halternative⟩ :
        (e.isWhole = true ∧ Block.isWhole body = true) ∧ Block.isWhole alternative = true := by
      simpa [Stmt.isWhole] using hs
    have hcond := h.congr (scopes_checkCondition c e)
    have hnested := hcond.congr (scopes_checkNested hcond.isOpen body)
    rw [checkStmt_condElse,
      faults_checkNested_iff (faults_checkBlock_iff alternative halternative (push_knows hnested.tells)),
      faults_checkNested_iff (faults_checkBlock_iff body hbody (push_knows hcond.tells)),
      faults_checkCondition_iff h.tells he, Stmt.wellTyped_condElse_iff]
    simp [Stmt.defined?, and_assoc]
  | .switch e arms, c, before, Γ, hs, h => by
    obtain ⟨he, harms⟩ : (e.isAbsent || e.isWhole) = true ∧ Arm.areWhole arms = true := by
      simpa [Stmt.isWhole] using hs
    -- the scope of the switch itself stays empty, so the arms are checked at the place of the switch
    have htells : Expr.Tells (c.checkExpr e).push.fetch? (before :: Γ) := by
      rw [fetch?_push]
      exact (h.congr (scopes_checkExpr c e)).tells
    have hiff := fun subject => faults_checkArms_iff arms subject harms (push_open (c.checkExpr e)) htells
    rw [checkStmt, faults_pop, hiff, faults_push]
    cases habsent : e.isAbsent with
    | true =>
      obtain rfl : e = .absent := Expr.isAbsent_iff.mp habsent
      rw [Stmt.wellTyped_tagless_iff]
      simp [checkExpr, reportAll, Expr.infer, Stmt.defined?]
    | false =>
      have hwhole : e.isWhole = true := by simpa [habsent] using he
      have hne : e ≠ .absent := fun heq => by simp [heq, Expr.isAbsent] at habsent
      rw [Stmt.wellTyped_tagged_iff hne, if_neg (by simp),
        faults_checkExpr_and_iff h.tells hwhole fun σ => Arm.WellTyped (before :: Γ) (some σ) arms]
      simp [Stmt.defined?]

theorem faults_checkBlock_iff : ∀ (b : Block) {c : Checker} {before : Block} {Γ : Place}, Block.isWhole b = true →
    c.Knows before Γ → ((c.checkBlock b).faults = [] ↔ c.faults = [] ∧ Block.Continues Γ before b)
  | [], c, before, Γ, _, _ => by
    simp [checkBlock, Block.continues_nil]
  | s :: ss, c, before, Γ, hb, h => by
    obtain ⟨hs, hss⟩ : s.isWhole = true ∧ Block.isWhole ss = true := by simpa [Block.isWhole] using hb
    rw [checkBlock, Block.continues_cons, ← and_assoc, ← and_assoc, and_assoc (a := c.faults = []),
      ← faults_checkStmt_iff s hs h]
    constructor
    · intro hnone
      have hfirst : (c.checkStmt s).faults = [] := by
        have hextends := checkBlock_extends ss (checkStmt_extends s h.isOpen).open_right
        exact List.prefix_nil.mp (hnone ▸ hextends.faults)
      exact (faults_checkBlock_iff ss hss (h.checkStmt hs hfirst)).mp hnone
    · rintro ⟨hfirst, hrest⟩
      exact (faults_checkBlock_iff ss hss (h.checkStmt hs hfirst)).mpr ⟨hfirst, hrest⟩

theorem faults_checkArms_iff : ∀ (arms : List (Arm Stmt)) (subject : Option Ty) {c : Checker} {Γ : Place},
    Arm.areWhole arms = true → c.scopes ≠ [] → Expr.Tells c.fetch? Γ →
      ((c.checkArms subject arms).faults = [] ↔ c.faults = [] ∧ Arm.WellTyped Γ subject arms)
  | [], subject, c, Γ, _, _, _ => by
    simp [checkArms, Arm.WellTyped]
  | ⟨guard, body⟩ :: arms, subject, c, Γ, harms, hopen, htells => by
    obtain ⟨⟨hguard, hbody⟩, hrest⟩ :
        ((guard.isAbsent || guard.isWhole) = true ∧ Block.isWhole body = true) ∧ Arm.areWhole arms = true := by
      simpa [Arm.areWhole] using harms
    have hscopes := scopes_checkGuard c subject guard
    have hopen' : (c.checkGuard subject guard).scopes ≠ [] := hscopes ▸ hopen
    have htells' : Expr.Tells (c.checkGuard subject guard).fetch? Γ := fetch?_congr hscopes ▸ htells
    have hnested := scopes_checkNested hopen' body
    rw [checkArms_cons,
      faults_checkArms_iff arms subject hrest (hnested ▸ hopen') (fetch?_congr hnested ▸ htells'),
      faults_checkNested_iff (faults_checkBlock_iff body hbody (push_knows htells')),
      faults_checkGuard_iff htells hguard]
    simp [Arm.WellTyped, and_assoc]

end

/-! ## Programs -/

theorem faults_checkProcedure_iff {q : Procedure} (hq : Block.isWhole q.body = true) :
    (c.checkProcedure q).faults = [] ↔ c.faults = [] ∧ Block.WellTyped [] q.body := by
  rw [checkProcedure, faults_checkBlock_iff q.body hq (enterProcedure_knows c), Block.wellTyped_iff_continues]
  rfl

theorem faults_foldl_checkProcedure_iff {qs : List Procedure} (hqs : ∀ q ∈ qs, Block.isWhole q.body = true) :
    (qs.foldl checkProcedure c).faults = [] ↔ c.faults = [] ∧ ∀ q ∈ qs, Block.WellTyped [] q.body := by
  induction qs generalizing c with
  | nil => simp
  | cons q qs ih =>
    rw [List.forall_mem_cons] at hqs
    rw [List.foldl_cons, ih hqs.2, faults_checkProcedure_iff hqs.1, List.forall_mem_cons, and_assoc]

end Checker

/-- A whole program is checked without faults exactly when it is well typed. -/
theorem Program.faults_check_eq_nil_iff (p : Program) (hp : p.isWhole = true) :
    p.check.faults = [] ↔ p.WellTyped := by
  have hqs : ∀ q ∈ p.procedures, Block.isWhole q.body = true := by simpa [isWhole] using hp
  rw [check, Checker.faults_foldl_checkProcedure_iff hqs]
  simp [Checker.start, WellTyped]

/-- Two branches that define a name of their own, and a switch after them that reads the outer one: if the outer
one is a string, the first arm does not fit. -/
def shadowing (outer : Literal) : Program :=
  { procedures := [⟨"main", [
      .assign "x" true (.literal outer),
      .cond (.binary (.name "x") .eq (.name "x"))
        [.assign "x" true (.literal (.string "inner")), .assign "x" false (.literal (.string "again"))]
        (some [.assign "y" true (.name "x"), .assign "x" true (.literal (.boolean true))]),
      .switch (.name "x") [
        ⟨.literal (.float ⟨0⟩), [.assign "y" true (.binary (.name "x") .add (.literal (.float ⟨0⟩))),
          .assign "y" false (.literal (.float ⟨0⟩))]⟩,
        ⟨.absent, [.assign "x" false (.literal outer)]⟩]]⟩] }

theorem Program.faults_check_shadowing :
    (shadowing (.integer 1)).isWhole = true ∧ (shadowing (.integer 1)).WellTyped ∧
      ¬ (shadowing (.string "outer")).WellTyped :=
  ⟨by decide, (faults_check_eq_nil_iff _ (by decide)).mp (by decide),
    fun h => absurd ((faults_check_eq_nil_iff _ (by decide)).mpr h) (by decide)⟩

end AddressLines
