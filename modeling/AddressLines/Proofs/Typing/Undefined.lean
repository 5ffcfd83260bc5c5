import AddressLines.Proofs.Compile.Lines
import AddressLines.Proofs.Grammar.Exprs
import AddressLines.Proofs.Typing.Moves

/-!
# No undefined type without a fault

The checker goes on after a fault and gives what it cannot type the type `undefined`. It compares undefined types like
any other, and so may be silent about them later; but the first one came with a fault, and faults stay.

The invariant is `Checker.Accounts`. The one move that brings an undefined type into a scope is a definition, and it is
due only after a fault (`Move.IsDue`). A run whose moves are all due keeps the invariant, and the moves of a program
without missing operands are all due.
-/

namespace AddressLines

/-! ## The invariant along the moves -/

namespace Checker

/-- An open scope or the log has a variable whose type is undefined. -/
def HoldsUndefined (c : Checker) : Prop :=
  (∃ s ∈ c.scopes, ∃ entry ∈ s.entries, entry.2 = Ty.undefined) ∨ ∃ d ∈ c.defined, d.ty = .undefined

/-- Undefined types are there only if a fault is. -/
def Accounts (c : Checker) : Prop :=
  c.HoldsUndefined → c.faults ≠ []

end Checker

/-- A variable is given an undefined type only after a fault. -/
def Move.IsDue (c : Checker) : Move → Prop
  | .declare _ τ => τ = .undefined → c.faults ≠ []
  | _ => True

namespace Checker

variable {c d : Checker} {ms ns : List Move}

def AllDue (c : Checker) : List Move → Prop
  | [] => True
  | m :: ms => m.IsDue c ∧ (c.after m).AllDue ms

theorem allDue_append : c.AllDue (ms ++ ns) ↔ c.AllDue ms ∧ (c.play ms).AllDue ns := by
  induction ms generalizing c with
  | nil => simp [AllDue, play]
  | cons m ms ih => simp only [List.cons_append, AllDue, ih, play_cons, and_assoc]

theorem allDue_report (c : Checker) (fs : List Fault) : c.AllDue (fs.map .report) := by
  induction fs generalizing c with
  | nil => trivial
  | cons f fs ih => exact ⟨trivial, ih _⟩

theorem start_accounts : start.Accounts := by
  simp [Accounts, HoldsUndefined, start, outermost]

theorem accounts_of_faults (h : c.faults ≠ []) : c.Accounts :=
  fun _ => h

theorem Accounts.declare (h : c.Accounts) (x : String) {τ : Ty} (hτ : τ = .undefined → c.faults ≠ []) :
    (c.declare x τ).Accounts := by
  unfold Checker.declare
  split
  · exact h
  · rename_i s ss hscopes
    split_ifs
    · exact accounts_of_faults (by simp [report])
    · rintro (⟨t, ht, entry, hentry, hundefined⟩ | ⟨d, hd, hundefined⟩)
      · rcases List.mem_cons.mp ht with rfl | ht
        · rcases List.mem_append.mp hentry with hentry | hentry
          · exact h (.inl ⟨s, by simp [hscopes], entry, hentry, hundefined⟩)
          · obtain rfl : entry = (x, τ) := List.mem_singleton.mp hentry
            exact hτ hundefined
        · exact h (.inl ⟨t, by simp [hscopes, ht], entry, hentry, hundefined⟩)
      · rcases List.mem_append.mp hd with hd | hd
        · exact h (.inr ⟨d, hd, hundefined⟩)
        · obtain rfl := List.mem_singleton.mp hd
          exact hτ hundefined

theorem Accounts.pop (h : c.Accounts) : c.pop.Accounts := by
  unfold Checker.pop
  split
  · rename_i t s ss hscopes
    rintro (⟨u, hu, hentry⟩ | hlog)
    · exact h (.inl ⟨u, hscopes ▸ List.mem_cons_of_mem t hu, hentry⟩)
    · exact h (.inr hlog)
  · exact h

/-- One move keeps the invariant. -/
theorem Accounts.after (h : c.Accounts) {m : Move} (hm : m.IsDue c) : (c.after m).Accounts := by
  cases m with
  | enterProcedure =>
    rintro (⟨s, hs, entry, hentry, -⟩ | hlog)
    · obtain rfl : s = ⟨0, []⟩ := List.mem_singleton.mp hs
      cases hentry
    · exact h (.inr hlog)
  | push =>
    rintro (⟨s, hs, entry, hentry, hundefined⟩ | hlog)
    · rcases List.mem_cons.mp hs with rfl | hs
      · cases hentry
      · exact h (.inl ⟨s, hs, entry, hentry, hundefined⟩)
    · exact h (.inr hlog)
  | pop => exact h.pop
  | report f => exact accounts_of_faults (by simp [Checker.after, reportAll])
  | declare x τ => exact h.declare x hm

/-- A run keeps the invariant if all its moves are due. -/
theorem Accounts.play (h : c.Accounts) (hms : c.AllDue ms) : (c.play ms).Accounts := by
  induction ms generalizing c with
  | nil => exact h
  | cons m ms ih => exact ih (h.after hms.1) hms.2

/-! ## Expressions -/

/-- While no fault is recorded, no variable has an undefined type. -/
theorem Accounts.fetch?_ne (h : c.Accounts) (hnone : c.faults = []) (x : String) : c.fetch? x ≠ some .undefined := by
  intro hx
  obtain ⟨s, hs, hfind⟩ := List.exists_of_findSome?_eq_some hx
  obtain ⟨before, after, hentries, -⟩ := List.lookup_eq_some_iff.mp hfind
  exact h (.inl ⟨s, hs, (x, .undefined), by simp [hentries], rfl⟩) hnone

end Checker

theorem Literal.ty_ne_undefined (l : Literal) : l.ty ≠ .undefined := by
  cases l <;> simp [Literal.ty]

theorem Ty.fst_operation_ne_undefined {op : BinOp} {left right : Ty} (hleft : left ≠ .undefined)
    (hnone : (Ty.operation op left right).2 = []) : (Ty.operation op left right).1 ≠ .undefined := by
  unfold Ty.operation at hnone ⊢
  split_ifs at hnone ⊢
  unfold Ty.ofOperation
  split_ifs
  · decide
  · exact hleft
  · decide

theorem Expr.fst_infer_ne_undefined {look : String → Option Ty} (hlook : ∀ x, look x ≠ some .undefined) {e : Expr}
    (he : e.isWhole = true) (hnone : (e.infer look).2 = []) : (e.infer look).1 ≠ .undefined := by
  induction e with
  | absent => simp [isWhole] at he
  | literal l => exact l.ty_ne_undefined
  | name x =>
    cases hx : look x with
    | none => simp [infer, hx] at hnone
    | some τ =>
      rw [infer, hx]
      exact fun hτ => hlook x (hx.trans (congrArg some hτ))
  | unary op e ih => exact ih he hnone
  | binary l op r ihl ihr =>
    simp only [isWhole, Bool.and_eq_true] at he
    simp only [infer, List.append_eq_nil_iff] at hnone
    exact Ty.fst_operation_ne_undefined (ihl he.1 hnone.1.1) hnone.2

namespace Checker

variable {c : Checker} {e : Expr}

/-- An expression whose type is found undefined has a fault, or there was one before. -/
theorem Accounts.infer_ne_undefined (h : c.Accounts) (he : e.isFilled = true) (hpresent : e ≠ .absent)
    (hnone : (c.checkExpr e).faults = []) : c.infer e ≠ .undefined := by
  obtain ⟨hnone, hnone'⟩ := List.append_eq_nil_iff.mp hnone
  have hwhole : e.isWhole = true := by
    refine Expr.isWhole_of_isFilled he ?_
    cases e with
    | absent => exact absurd rfl hpresent
    | _ => rfl
  exact Expr.fst_infer_ne_undefined (h.fetch?_ne hnone) hwhole hnone'

/-! ## Statements -/

theorem allDue_conditionMoves (c : Checker) (e : Expr) : c.AllDue (c.conditionMoves e) := by
  refine allDue_append.mpr ⟨allDue_report _ _, ?_⟩
  split_ifs
  · trivial
  · exact ⟨trivial, trivial⟩

theorem allDue_definitionMoves (h : c.Accounts) (x : String) (he : e.isFilled = true) (hpresent : e ≠ .absent) :
    c.AllDue (c.definitionMoves x e) := by
  unfold definitionMoves
  split_ifs
  · exact ⟨trivial, trivial⟩
  · refine allDue_append.mpr ⟨allDue_report _ _, fun hundefined hnone => ?_, trivial⟩
    rw [play_exprMoves] at hnone
    exact h.infer_ne_undefined he hpresent hnone hundefined

theorem allDue_assignmentMoves (c : Checker) (x : String) (e : Expr) : c.AllDue (c.assignmentMoves x e) := by
  unfold assignmentMoves
  split
  · exact ⟨trivial, trivial⟩
  · refine allDue_append.mpr ⟨allDue_report _ _, ?_⟩
    split_ifs
    · trivial
    · exact ⟨trivial, trivial⟩

theorem allDue_guardMoves (c : Checker) (subject : Option Ty) (guard : Expr) :
    c.AllDue (c.guardMoves subject guard) := by
  unfold guardMoves
  split_ifs
  · trivial
  · cases subject with
    | none => exact c.allDue_conditionMoves guard
    | some τ => exact allDue_append.mpr ⟨allDue_report _ _, allDue_report _ _⟩

theorem Accounts.checkExpr (h : c.Accounts) (e : Expr) : (c.checkExpr e).Accounts :=
  c.play_exprMoves e ▸ h.play (allDue_report _ _)

theorem Accounts.checkCondition (h : c.Accounts) (e : Expr) : (c.checkCondition e).Accounts :=
  c.play_conditionMoves e ▸ h.play (c.allDue_conditionMoves e)

theorem Accounts.checkGuard (h : c.Accounts) (subject : Option Ty) (guard : Expr) :
    (c.checkGuard subject guard).Accounts :=
  c.play_guardMoves subject guard ▸ h.play (c.allDue_guardMoves subject guard)

theorem Accounts.push (h : c.Accounts) : c.push.Accounts :=
  h.after (m := .push) trivial

/-- A nested block, and the moves behind it. -/
theorem allDue_nested {body : Block} {rest : List Move} (hbody : c.push.AllDue (c.push.blockMoves body))
    (hrest : (c.checkNested body).AllDue rest) : c.AllDue (.push :: (c.push.blockMoves body ++ .pop :: rest)) := by
  refine ⟨trivial, allDue_append.mpr ⟨hbody, trivial, ?_⟩⟩
  rw [Checker.after, Checker.after, play_blockMoves]
  exact hrest

theorem Accounts.checkNested {body : Block} (h : c.Accounts) (hbody : c.push.AllDue (c.push.blockMoves body)) :
    (c.checkNested body).Accounts := by
  rw [Checker.checkNested, ← play_blockMoves]
  exact (h.push.play hbody).pop

mutual

theorem allDue_stmtMoves : ∀ {s : Stmt} {c : Checker}, c.Accounts → (∀ e ∈ s.exprs, e.isFilled = true) →
    c.AllDue (c.stmtMoves s)
  | .assign x defines e, c, h, hs => by
    rw [stmtMoves]
    split_ifs with habsent
    · trivial
    · refine allDue_definitionMoves h x (hs e (by simp [Stmt.exprs])) ?_
      rintro rfl
      exact habsent rfl
    · exact c.allDue_assignmentMoves x e
  | .branch word, c, _, _ => by
    rw [stmtMoves]
    trivial
  | .cond e body none, c, h, hs => by
    obtain ⟨-, hbody⟩ := List.forall_mem_cons.mp hs
    rw [stmtMoves]
    refine allDue_append.mpr ⟨c.allDue_conditionMoves e, ?_⟩
    rw [play_conditionMoves]
    exact allDue_nested (allDue_blockMoves (h.checkCondition e).push hbody) trivial
  | .cond e body (some alternative), c, h, hs => by
    obtain ⟨-, hblocks⟩ := List.forall_mem_cons.mp hs
    obtain ⟨hbody, halternative⟩ := List.forall_mem_append.mp hblocks
    have hcond := h.checkCondition e
    have hdue := allDue_blockMoves hcond.push hbody
    rw [stmtMoves]
    refine allDue_append.mpr ⟨c.allDue_conditionMoves e, ?_⟩
    rw [play_conditionMoves]
    refine allDue_nested hdue (allDue_nested ?_ trivial)
    exact allDue_blockMoves (hcond.checkNested hdue).push halternative
  | .switch e arms, c, h, hs => by
    obtain ⟨-, harms⟩ := List.forall_mem_cons.mp hs
    rw [stmtMoves]
    refine allDue_append.mpr ⟨allDue_report _ _, trivial, allDue_append.mpr ⟨?_, trivial, trivial⟩⟩
    rw [play_exprMoves, Checker.after]
    exact allDue_armMoves (h.checkExpr e).push _ harms

theorem allDue_blockMoves : ∀ {b : Block} {c : Checker}, c.Accounts → (∀ e ∈ Block.exprs b, e.isFilled = true) →
    c.AllDue (c.blockMoves b)
  | [], c, _, _ => by
    rw [blockMoves]
    trivial
  | s :: ss, c, h, hb => by
    obtain ⟨hs, hss⟩ := List.forall_mem_append.mp hb
    have hdue := allDue_stmtMoves h hs
    have hafter := h.play hdue
    rw [blockMoves]
    refine allDue_append.mpr ⟨hdue, ?_⟩
    rw [play_stmtMoves] at hafter ⊢
    exact allDue_blockMoves hafter hss

theorem allDue_armMoves : ∀ {arms : List (Arm Stmt)} {c : Checker}, c.Accounts → ∀ subject : Option Ty,
    (∀ e ∈ Arm.allExprs arms, e.isFilled = true) → c.AllDue (c.armMoves subject arms)
  | [], c, _, subject, _ => by
    rw [armMoves]
    trivial
  | ⟨guard, body⟩ :: arms, c, h, subject, harms => by
    obtain ⟨-, hrest⟩ := List.forall_mem_cons.mp harms
    obtain ⟨hbody, hrest⟩ := List.forall_mem_append.mp hrest
    have hguard := h.checkGuard subject guard
    have hdue := allDue_blockMoves hguard.push hbody
    rw [armMoves]
    refine allDue_append.mpr ⟨c.allDue_guardMoves subject guard, ?_⟩
    rw [play_guardMoves]
    exact allDue_nested hdue (allDue_armMoves (hguard.checkNested hdue) subject hrest)

end

theorem allDue_procedureMoves {ps : List Procedure} (h : c.Accounts)
    (hps : ∀ e ∈ ps.flatMap fun p => Block.exprs p.body, e.isFilled = true) : c.AllDue (c.procedureMoves ps) := by
  induction ps generalizing c with
  | nil => trivial
  | cons p ps ih =>
    rw [List.flatMap_cons] at hps
    obtain ⟨hp, hps⟩ := List.forall_mem_append.mp hps
    have hdue := allDue_blockMoves (h.after (m := .enterProcedure) trivial) hp
    have hafter := (h.after (m := .enterProcedure) trivial).play hdue
    refine ⟨trivial, allDue_append.mpr ⟨hdue, ?_⟩⟩
    rw [Checker.after, play_blockMoves] at hafter ⊢
    exact ih hafter hps

end Checker

/-! ## Programs -/

theorem Program.allDue_moves {p : Program} (hp : ∀ e ∈ p.exprs, e.isFilled = true) :
    Checker.start.AllDue p.moves :=
  Checker.allDue_procedureMoves Checker.start_accounts hp

theorem Reading.isFilled_of_mem_exprs {ts : List Token} (hnone : (Reading.ofTokens ts).program.faults = []) {e : Expr}
    (he : e ∈ (Reading.ofTokens ts).program.exprs) : e.isFilled = true := by
  rcases Reading.yields_of_mem_exprs hnone he with rfl | ⟨es, hes⟩
  · rfl
  · exact Expr.isFilled_of_isWhole hes.isWhole

/-- A reading that stopped at the package clause has no procedures. -/
theorem Reading.check_of_not_completed {ts : List Token} (h : (Reading.ofTokens ts).completed = false) :
    (Reading.ofTokens ts).program.check = Checker.start := by
  unfold Reading.ofTokens at h ⊢
  dsimp only at h ⊢
  split
  · rfl
  · rename_i hclause
    simp [hclause] at h

theorem faults_check_of_compile {file source code : String} (h : compile file source = .ok code) :
    (read file source).program.check.faults = [] := by
  obtain ⟨-, hmeaning, -⟩ := Reading.compile_eq_ok h
  cases hdone : (read file source).completed with
  | true => simpa [Reading.report, hdone] using hmeaning
  | false => rw [read, Reading.check_of_not_completed hdone, Checker.start]

/-- Checking a program in which no operator misses an operand: wherever an open scope or the log has an undefined type, a
fault has been recorded, and so it has wherever the type of an expression is found undefined that is not absent. Thus
without faults no variable is undefined at the end, and none is in a program that compiles. -/
theorem undefined_accounted :
    (∀ p : Program, (∀ e ∈ p.exprs, e.isFilled = true) →
      Checker.start.play p.moves = p.check ∧
      (∀ done rest, p.moves = done ++ rest →
        ((Checker.start.play done).HoldsUndefined → (Checker.start.play done).faults ≠ []) ∧
        ∀ e : Expr, e.isFilled = true → e ≠ .absent → (Checker.start.play done).infer e = .undefined →
          ((Checker.start.play done).checkExpr e).faults ≠ []) ∧
      (p.check.faults = [] → ∀ d ∈ p.check.defined, d.ty ≠ .undefined)) ∧
    ∀ file source code, compile file source = .ok code →
      ∀ d ∈ (read file source).program.check.defined, d.ty ≠ .undefined := by
  have hend : ∀ p : Program, (∀ e ∈ p.exprs, e.isFilled = true) → p.check.faults = [] →
      ∀ d ∈ p.check.defined, d.ty ≠ .undefined := by
    intro p hp hnone d hd hundefined
    have haccounts := Checker.start_accounts.play (Program.allDue_moves hp)
    rw [p.play_moves] at haccounts
    exact haccounts (.inr ⟨d, hd, hundefined⟩) hnone
  refine ⟨fun p hp => ⟨p.play_moves, ?_, hend p hp⟩, ?_⟩
  · intro done rest hmoves
    have hdue : Checker.start.AllDue done := (Checker.allDue_append.mp (hmoves ▸ Program.allDue_moves hp)).1
    have haccounts := Checker.start_accounts.play hdue
    refine ⟨haccounts, fun e he hpresent hundefined hnone => ?_⟩
    exact haccounts.infer_ne_undefined he hpresent hnone hundefined
  · intro file source code hcompile
    have hnone := (compile_eq_ok hcompile).1
    exact hend _ (fun e he => Reading.isFilled_of_mem_exprs hnone he) (faults_check_of_compile hcompile)

/-- One name is not defined; what is made of it later has undefined types that agree, without a further fault. -/
def silentProgram : Program where
  procedures := [⟨"f", [.assign "b" true (.name "a"), .assign "c" true (.binary (.name "b") .add (.name "b"))]⟩]

theorem undefined_accounted_silent :
    (∀ e ∈ silentProgram.exprs, e.isFilled = true) ∧
      silentProgram.check.defined = [⟨0, "b", .undefined⟩, ⟨0, "c", .undefined⟩] ∧
      silentProgram.check.faults ≠ [] ∧
      compile unnamedFile (literalSource "a") = .ok (literalCode "a") ∧
      ∀ d ∈ (read unnamedFile (literalSource "a")).program.check.defined, d.ty ≠ .undefined := by
  have hfilled : ∀ e ∈ silentProgram.exprs, e.isFilled = true := by decide
  have hdefined : silentProgram.check.defined = [⟨0, "b", .undefined⟩, ⟨0, "c", .undefined⟩] := by decide
  have hcompile : compile unnamedFile (literalSource "a") = .ok (literalCode "a") :=
    compile_of_toOption (by decide +kernel)
  obtain ⟨hplay, hpoints, -⟩ := undefined_accounted.1 silentProgram hfilled
  have hlast := (hpoints silentProgram.moves [] (List.append_nil _).symm).1
  rw [hplay] at hlast
  have hfaults := hlast (.inr ⟨⟨0, "b", .undefined⟩, by simp [hdefined], rfl⟩)
  exact ⟨hfilled, hdefined, hfaults, hcompile, undefined_accounted.2 _ _ _ hcompile⟩

end AddressLines
