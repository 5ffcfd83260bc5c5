import AddressLines.Proofs.Tree.Gap
import AddressLines.Proofs.Typing.Alike
import AddressLines.Proofs.Typing.Moves

/-!
# A switch and its chain

A switch is checked by a rule of its own: its subject is typed once and the bodies of its arms stand two scopes down.
What is written out is a chain of conditionals that repeats the subject in every condition and nests each arm in the
alternative of the arm before. The two agree at every place of every program: the code is the same, the scopes
afterwards are the same, and one is free of faults if the other is. There is one exception. A subject that is wrong by
itself does not show in a chain if no arm compares anything with it.

What is said about a place of a program is said about the checker there (`Program.Gap.enter`). The run over the program
comes to it, and goes on with the statement at that place (`Program.Gap.passesThrough`).
-/

namespace AddressLines

variable {c d : Checker}

/-! ## Checking around a gap -/

namespace Checker

/-- What the guards of a switch are compared with: the type of its subject, if it has one. -/
def subjectType (c : Checker) (e : Expr) : Option Ty :=
  if e.isAbsent then none else some (c.infer e)

theorem checkStmt_switch (c : Checker) (e : Expr) (arms : List (Arm Stmt)) :
    c.checkStmt (.switch e arms) = ((c.checkExpr e).push.checkArms (c.subjectType e) arms).pop := by
  rw [checkStmt]
  rfl

theorem checkBlock_append (c : Checker) (b b' : Block) : c.checkBlock (b ++ b') = (c.checkBlock b).checkBlock b' := by
  induction b generalizing c with
  | nil => rw [List.nil_append, checkBlock]
  | cons s b ih => rw [List.cons_append, checkBlock, checkBlock, ih]

theorem checkArms_append (c : Checker) (subject : Option Ty) (arms arms' : List (Arm Stmt)) :
    c.checkArms subject (arms ++ arms') = (c.checkArms subject arms).checkArms subject arms' := by
  induction arms generalizing c with
  | nil => rw [List.nil_append, checkArms]
  | cons arm arms ih => rw [List.cons_append, checkArms_cons, checkArms_cons, ih]

theorem faults_checkNested (c : Checker) (b : Block) : (c.checkNested b).faults = (c.push.checkBlock b).faults := by
  rw [checkNested, faults_pop]

/-- Faults behind a nested block do not depend on what the block is. -/
theorem checkNested_alike (hopen : c.scopes ≠ []) (b b' : Block) : (c.checkNested b).Alike (c.checkNested b') := by
  have hb := scopes_checkNested hopen b
  exact .of_scopes_eq (hb ▸ hopen) ((scopes_checkNested hopen b').trans hb.symm)

/-- Nor do faults behind a statement that defines nothing. -/
theorem checkStmt_alike {s t : Stmt} (hopen : c.scopes ≠ []) (hs : s.defined? = none) (ht : t.defined? = none) :
    (c.checkStmt s).Alike (c.checkStmt t) := by
  have hscopes := scopes_checkStmt hopen hs
  exact .of_scopes_eq (hscopes ▸ hopen) ((scopes_checkStmt hopen ht).trans hscopes.symm)

theorem faults_checkBlock_congr {s t : Stmt} (hs : s.defined? = none) (ht : t.defined? = none) (hopen : c.scopes ≠ [])
    (before after : Block)
    (h : ((c.checkBlock before).checkStmt s).faults = [] → ((c.checkBlock before).checkStmt t).faults = []) :
    (c.checkBlock (before ++ s :: after)).faults = [] → (c.checkBlock (before ++ t :: after)).faults = [] := by
  rw [checkBlock_append, checkBlock_append, checkBlock, checkBlock]
  have hbefore := (checkBlock_extends before hopen).open_right
  exact (checkBlock_together after (checkStmt_alike hbefore hs ht)).faults_eq_nil h

end Checker

open Checker

/-- The checker at the start of the missing block. -/
def Layer.enter (c : Checker) : Layer → Checker
  | .inBody e _ => (c.checkCondition e).push
  | .inAlternative e body => ((c.checkCondition e).checkNested body).push
  | .inArm e before guard _ =>
    (((c.checkExpr e).push.checkArms (c.subjectType e) before).checkGuard (c.subjectType e) guard).push

/-- The checker at the missing statement. -/
def Gap.enter (c : Checker) : Gap → Checker
  | .here before _ => c.checkBlock before
  | .inside before layer inner _ => inner.enter (layer.enter (c.checkBlock before))

/-- The checker at the missing statement of a program. -/
def Program.Gap.enter (g : Program.Gap) : Checker :=
  g.body.enter (g.before.foldl Checker.checkProcedure Checker.start).enterProcedure

/-! ## The run through a gap -/

/-- The moves for what fills a gap start from `c` with some that are the same whatever fills it. They lead to `d`, and
the moves that `next` gives follow. -/
def Checker.PassesThrough {α : Type} (c d : Checker) (moves next : α → List Move) : Prop :=
  ∃ done, c.play done = d ∧ ∀ a, ∃ rest, moves a = done ++ (next a ++ rest)

namespace Checker

variable {α : Type} {e : Checker} {moves next last : α → List Move}

theorem PassesThrough.trans (h : c.PassesThrough d moves next) (h' : d.PassesThrough e next last) :
    c.PassesThrough e moves last := by
  obtain ⟨done, rfl, hmoves⟩ := h
  obtain ⟨more, rfl, hnext⟩ := h'
  refine ⟨done ++ more, play_append .., fun a => ?_⟩
  obtain ⟨rest, hrest⟩ := hmoves a
  obtain ⟨tail, htail⟩ := hnext a
  exact ⟨tail ++ rest, by rw [hrest, htail]; simp only [List.append_assoc]⟩

/-- What fills the gap may depend on something else. -/
theorem PassesThrough.comp {β : Type} (h : c.PassesThrough d moves next) (f : β → α) :
    c.PassesThrough d (fun b => moves (f b)) fun b => next (f b) := by
  obtain ⟨done, hdone, hmoves⟩ := h
  exact ⟨done, hdone, fun b => hmoves (f b)⟩

theorem blockMoves_append (c : Checker) (b b' : Block) :
    c.blockMoves (b ++ b') = c.blockMoves b ++ (c.checkBlock b).blockMoves b' := by
  induction b generalizing c with
  | nil => rw [List.nil_append, blockMoves, checkBlock, List.nil_append]
  | cons s b ih => rw [List.cons_append, blockMoves, blockMoves, checkBlock, ih, List.append_assoc]

theorem armMoves_append (c : Checker) (subject : Option Ty) (arms arms' : List (Arm Stmt)) :
    c.armMoves subject (arms ++ arms') =
      c.armMoves subject arms ++ (c.checkArms subject arms).armMoves subject arms' := by
  induction arms generalizing c with
  | nil => rw [List.nil_append, armMoves, checkArms, List.nil_append]
  | cons arm arms ih =>
    rw [List.cons_append, armMoves, armMoves, checkArms_cons, ih]
    simp only [List.append_assoc, List.cons_append]

theorem procedureMoves_append (c : Checker) (ps qs : List Procedure) :
    c.procedureMoves (ps ++ qs) = c.procedureMoves ps ++ (ps.foldl checkProcedure c).procedureMoves qs := by
  induction ps generalizing c with
  | nil => rfl
  | cons p ps ih =>
    rw [List.cons_append, procedureMoves, procedureMoves, ih, List.foldl_cons]
    simp only [List.append_assoc, List.cons_append]

theorem passesThrough_block (c : Checker) (before after : Block) :
    c.PassesThrough (c.checkBlock before) (fun s => c.blockMoves (before ++ s :: after))
      (c.checkBlock before).stmtMoves := by
  refine ⟨c.blockMoves before, c.play_blockMoves before, fun s => ?_⟩
  refine ⟨((c.checkBlock before).checkStmt s).blockMoves after, ?_⟩
  dsimp only
  rw [blockMoves_append, blockMoves]

end Checker

theorem Layer.passesThrough (layer : Layer) (c : Checker) :
    c.PassesThrough (layer.enter c) (fun b => c.stmtMoves (layer.fill b)) (layer.enter c).blockMoves := by
  match layer with
  | .inBody e alternative =>
    refine ⟨c.conditionMoves e ++ [.push], ?_, fun b => ?_⟩
    · rw [play_append, play_conditionMoves]
      rfl
    · dsimp only [fill]
      cases alternative with
      | none =>
        refine ⟨[.pop], ?_⟩
        rw [stmtMoves, List.append_assoc]
        rfl
      | some other =>
        refine ⟨.pop :: .push :: (((c.checkCondition e).checkNested b).push.blockMoves other ++ [.pop]), ?_⟩
        rw [stmtMoves, List.append_assoc]
        rfl
  | .inAlternative e body =>
    refine ⟨c.conditionMoves e ++ .push :: ((c.checkCondition e).push.blockMoves body ++ [.pop, .push]), ?_,
      fun b => ?_⟩
    · rw [play_append, play_conditionMoves, play_cons, play_append, after, play_blockMoves]
      rfl
    · refine ⟨[.pop], ?_⟩
      dsimp only [fill]
      rw [stmtMoves]
      simp only [List.append_assoc, List.cons_append, List.nil_append]
      rfl
  | .inArm e before guard rest =>
    refine ⟨c.exprMoves e ++ .push :: ((c.checkExpr e).push.armMoves (c.subjectType e) before ++
      (((c.checkExpr e).push.checkArms (c.subjectType e) before).guardMoves (c.subjectType e) guard ++ [.push])), ?_,
      fun b => ?_⟩
    · rw [play_append, play_exprMoves, play_cons, play_append, after, play_armMoves, play_append, play_guardMoves]
      rfl
    · refine ⟨.pop :: ((((c.checkExpr e).push.checkArms (c.subjectType e) before).checkGuard (c.subjectType e)
        guard).checkNested b).armMoves (c.subjectType e) rest ++ [.pop], ?_⟩
      dsimp only [fill]
      rw [stmtMoves]
      simp only [armMoves_append, armMoves, List.append_assoc, List.cons_append, List.nil_append]
      rfl

theorem Gap.passesThrough (g : Gap) (c : Checker) :
    c.PassesThrough (g.enter c) (fun s => c.blockMoves (g.fill s)) (g.enter c).stmtMoves := by
  induction g generalizing c with
  | here before after => exact c.passesThrough_block before after
  | inside before layer inner after ih =>
    have hblock := (c.passesThrough_block before after).comp fun s => layer.fill (inner.fill s)
    have hlayer := (layer.passesThrough (c.checkBlock before)).comp fun s => inner.fill s
    exact hblock.trans (hlayer.trans (ih _))

/-- The run over a program with its gap filled comes to `enter` by the same moves whatever fills the gap, and goes on
there with the moves of the statement. -/
theorem Program.Gap.passesThrough (g : Program.Gap) :
    Checker.start.PassesThrough g.enter (fun s => (g.fill s).moves) g.enter.stmtMoves := by
  have hbefore : Checker.start.PassesThrough (g.before.foldl checkProcedure Checker.start).enterProcedure
      (fun s => (g.fill s).moves)
      fun s => (g.before.foldl checkProcedure Checker.start).enterProcedure.blockMoves (g.body.fill s) := by
    refine ⟨Checker.start.procedureMoves g.before ++ [.enterProcedure], ?_, fun s => ?_⟩
    · rw [play_append, play_procedureMoves]
      rfl
    · refine ⟨((g.before.foldl checkProcedure Checker.start).checkProcedure ⟨g.name, g.body.fill s⟩).procedureMoves
        g.after, ?_⟩
      dsimp only [moves, fill]
      rw [procedureMoves_append, procedureMoves, List.append_assoc]
      rfl
  exact hbefore.trans (g.body.passesThrough _)

/-! ## Exchanging statements -/

theorem Layer.defined?_fill (layer : Layer) (b : Block) : (layer.fill b).defined? = none := by
  cases layer <;> rfl

theorem Layer.enter_open (layer : Layer) (c : Checker) : (layer.enter c).scopes ≠ [] := by
  cases layer <;> exact push_open _

theorem Layer.faults_checkStmt_fill {b b' : Block} (layer : Layer) (hopen : c.scopes ≠ [])
    (h : ((layer.enter c).checkBlock b).faults = [] → ((layer.enter c).checkBlock b').faults = []) :
    (c.checkStmt (layer.fill b)).faults = [] → (c.checkStmt (layer.fill b')).faults = [] := by
  match layer with
  | .inBody e none =>
    rw [fill, fill, checkStmt_cond, checkStmt_cond, faults_checkNested, faults_checkNested]
    exact h
  | .inBody e (some alternative) =>
    rw [fill, fill, checkStmt_condElse, checkStmt_condElse]
    have hcond := (checkCondition_extends hopen e).open_right
    refine (checkNested_together alternative (checkNested_alike hcond b b')).faults_eq_nil ?_
    rw [faults_checkNested, faults_checkNested]
    exact h
  | .inAlternative e body =>
    rw [fill, fill, checkStmt_condElse, checkStmt_condElse, faults_checkNested, faults_checkNested]
    exact h
  | .inArm e before guard after =>
    rw [fill, fill, checkStmt_switch, checkStmt_switch, faults_pop, faults_pop, checkArms_append, checkArms_append,
      checkArms_cons, checkArms_cons]
    have hbefore : ((c.checkExpr e).push.checkArms (c.subjectType e) before).scopes ≠ [] :=
      (checkArms_extends before (push_open _)).open_right
    have hguard := (checkGuard_extends hbefore (c.subjectType e) guard).open_right
    refine (checkArms_together after (checkNested_alike hguard b b')).faults_eq_nil ?_
    rw [faults_checkNested, faults_checkNested]
    exact h

/-- A statement that defines nothing can be exchanged in a gap if the exchange brings no fault there. -/
theorem Gap.faults_checkBlock_fill {s t : Stmt} (hs : s.defined? = none) (ht : t.defined? = none) (g : Gap)
    (hopen : c.scopes ≠ []) (h : ((g.enter c).checkStmt s).faults = [] → ((g.enter c).checkStmt t).faults = []) :
    (c.checkBlock (g.fill s)).faults = [] → (c.checkBlock (g.fill t)).faults = [] := by
  induction g generalizing c with
  | here before after => exact faults_checkBlock_congr hs ht hopen before after h
  | inside before layer inner after ih =>
    have hbefore := (checkBlock_extends before hopen).open_right
    refine faults_checkBlock_congr (layer.defined?_fill _) (layer.defined?_fill _) hopen before after ?_
    exact layer.faults_checkStmt_fill hbefore (ih (layer.enter_open _) h)

theorem Checker.checkProcedure_together (c d : Checker) (q : Procedure) :
    Together c d (c.checkProcedure q) (d.checkProcedure q) := by
  have halike : c.enterProcedure.Alike d.enterProcedure :=
    .of_scopes_eq (by simp [enterProcedure, outermost]) rfl
  have htogether := checkBlock_together q.body halike
  exact ⟨htogether.alike, htogether.faults⟩

theorem Checker.faults_foldl_checkProcedure (qs : List Procedure) (h : c.faults = [] → d.faults = []) :
    (qs.foldl checkProcedure c).faults = [] → (qs.foldl checkProcedure d).faults = [] := by
  induction qs generalizing c d with
  | nil => exact h
  | cons q qs ih => exact ih (checkProcedure_together c d q |>.faults_eq_nil h)

theorem Program.Gap.faults_check_fill {s t : Stmt} (hs : s.defined? = none) (ht : t.defined? = none) (g : Program.Gap)
    (h : (g.enter.checkStmt s).faults = [] → (g.enter.checkStmt t).faults = []) :
    (g.fill s).check.faults = [] → (g.fill t).check.faults = [] := by
  simp only [check, fill, List.foldl_append, List.foldl_cons]
  refine faults_foldl_checkProcedure g.after ?_
  exact g.body.faults_checkBlock_fill hs ht (by simp [enterProcedure, outermost]) h

/-! ## Arms without faults -/

/-- The expression is a condition without faults, where `look` tells the types of names. -/
def Expr.IsCondition (look : String → Option Ty) (e : Expr) : Prop :=
  (e.infer look).2 = [] ∧ (e.infer look).1 = .boolean

/-- The guard of an arm, if it has one, is without faults and fits the subject. -/
def Expr.Admits (look : String → Option Ty) (subject guard : Expr) : Prop :=
  guard.isAbsent = false →
    if subject.isAbsent then guard.IsCondition look
    else (guard.infer look).2 = [] ∧ (subject.infer look).1.agrees (guard.infer look).1 = true

/-- The block has no faults in a scope of its own. -/
def Block.IsClean (look : String → Option Ty) (b : Block) : Prop :=
  ∀ c : Checker, c.scopes ≠ [] → c.fetch? = look → c.faults = [] → (c.checkNested b).faults = []

theorem Ty.snd_operation_eq_nil {op : BinOp} {σ τ : Ty} : (Ty.operation op σ τ).2 = [] ↔ σ.agrees τ = true := by
  rw [operation]
  split_ifs with h <;> simp [h]

theorem Checker.faults_checkCondition_eq_nil (c : Checker) (e : Expr) :
    (c.checkCondition e).faults = [] ↔ c.faults = [] ∧ e.IsCondition c.fetch? := by
  simp only [checkCondition, Expr.IsCondition, infer]
  split_ifs with hτ
  · simp [checkExpr, reportAll, hτ]
  · simp [hτ, faults_report_ne_nil]

theorem Checker.faults_checkGuard_eq_nil (c : Checker) (subject guard : Expr) :
    (c.checkGuard (c.subjectType subject) guard).faults = [] ↔ c.faults = [] ∧ subject.Admits c.fetch? guard := by
  cases hguard : guard.isAbsent with
  | true => simp [checkGuard, hguard, Expr.Admits]
  | false =>
    cases hsubject : subject.isAbsent with
    | true => simp [checkGuard, subjectType, hguard, hsubject, Expr.Admits, faults_checkCondition_eq_nil]
    | false =>
      simp [checkGuard, subjectType, hguard, hsubject, Expr.Admits, checkExpr, reportAll, infer,
        Ty.snd_operation_eq_nil]

theorem Checker.faults_checkNested_eq_nil (hopen : c.scopes ≠ []) (b : Block) :
    (c.checkNested b).faults = [] ↔ c.faults = [] ∧ Block.IsClean c.fetch? b := by
  constructor
  · intro hnone
    have hprefix := (nested_extends hopen (checkBlock_extends b (push_open c))).faults
    refine ⟨List.prefix_nil.mp (hnone ▸ hprefix), ?_⟩
    intro d hopen' hfetch hd
    rw [faults_checkNested] at hnone ⊢
    exact (checkBlock_together b (push_alike hfetch)).faults_eq_nil (fun _ => hd) hnone
  · intro h
    exact h.2 c hopen rfl h.1

/-- A condition made of a subject and a guard is the guard's comparison, with the subject checked again. -/
theorem Expr.isCondition_armCondition_iff {look : String → Option Ty} {subject guard : Expr} :
    (subject.armCondition guard).IsCondition look ↔
      subject.Admits look guard ∧ (guard.isAbsent = false → (subject.infer look).2 = []) := by
  cases hguard : guard.isAbsent with
  | true => simp [armCondition, hguard, IsCondition, Admits, Expr.infer, Literal.ty]
  | false =>
    cases hsubject : subject.isAbsent with
    | true =>
      obtain rfl : subject = .absent := Expr.isAbsent_iff.mp hsubject
      simp [armCondition, hguard, hsubject, Admits, Expr.infer]
    | false =>
      have htype : ∀ {σ τ : Ty}, σ.agrees τ = true → (Ty.operation .eq σ τ).1 = .boolean := by
        intro σ τ h
        simp [Ty.operation, h, Ty.ofOperation, BinOp.isComparison]
      simp only [armCondition, hguard, hsubject, IsCondition, Admits, Expr.infer, List.append_eq_nil_iff,
        Ty.snd_operation_eq_nil, Bool.false_eq_true, if_false, true_implies]
      constructor
      · rintro ⟨⟨⟨hsubject, hguard⟩, hagrees⟩, -⟩
        exact ⟨⟨hguard, hagrees⟩, hsubject⟩
      · rintro ⟨⟨hguard, hagrees⟩, hsubject⟩
        exact ⟨⟨⟨hsubject, hguard⟩, hagrees⟩, htype hagrees⟩

namespace Checker

theorem subjectType_congr (h : d.fetch? = c.fetch?) (e : Expr) : d.subjectType e = c.subjectType e := by
  rw [subjectType, subjectType, infer, infer, h]

/-- All arms fit the subject and have clean bodies. -/
theorem faults_checkArms_eq_nil (hopen : c.scopes ≠ []) (subject : Expr) (arms : List (Arm Stmt)) :
    (c.checkArms (c.subjectType subject) arms).faults = [] ↔
      c.faults = [] ∧ ∀ arm ∈ arms, subject.Admits c.fetch? arm.guard ∧ Block.IsClean c.fetch? arm.body := by
  induction arms generalizing c with
  | nil => simp [checkArms]
  | cons arm arms ih =>
    have hguard := scopes_checkGuard c (c.subjectType subject) arm.guard
    have hopen' : (c.checkGuard (c.subjectType subject) arm.guard).scopes ≠ [] := hguard ▸ hopen
    have hbody := (scopes_checkNested hopen' arm.body).trans hguard
    have hopen'' : ((c.checkGuard (c.subjectType subject) arm.guard).checkNested arm.body).scopes ≠ [] := hbody ▸ hopen
    have hrest := ih hopen''
    rw [subjectType_congr (fetch?_congr hbody), fetch?_congr hbody] at hrest
    rw [checkArms_cons, hrest, faults_checkNested_eq_nil hopen', fetch?_congr hguard, faults_checkGuard_eq_nil,
      List.forall_mem_cons]
    simp only [and_assoc]

theorem faults_checkStmt_switch_eq_nil (c : Checker) (subject : Expr) (arms : List (Arm Stmt)) :
    (c.checkStmt (.switch subject arms)).faults = [] ↔ c.faults = [] ∧ (subject.infer c.fetch?).2 = [] ∧
      ∀ arm ∈ arms, subject.Admits c.fetch? arm.guard ∧ Block.IsClean c.fetch? arm.body := by
  have hfetch : (c.checkExpr subject).push.fetch? = c.fetch? := by
    rw [fetch?_push, fetch?_congr (scopes_checkExpr c subject)]
  rw [checkStmt_switch, faults_pop, ← subjectType_congr hfetch, faults_checkArms_eq_nil (push_open _), hfetch,
    faults_push, checkExpr, reportAll, List.append_eq_nil_iff, and_assoc]

theorem faults_checkStmt_chain_eq_nil {subject : Expr} {arms : List (Arm Stmt)} {s : Stmt}
    (h : Stmt.chain? subject arms = some s) (hopen : c.scopes ≠ []) :
    (c.checkStmt s).faults = [] ↔ c.faults = [] ∧ ∀ arm ∈ arms,
      (subject.armCondition arm.guard).IsCondition c.fetch? ∧ Block.IsClean c.fetch? arm.body := by
  induction arms generalizing c s with
  | nil => simp [Stmt.chain?] at h
  | cons arm arms ih =>
    obtain rfl : Stmt.cond (subject.armCondition arm.guard) arm.body ((Stmt.chain? subject arms).map ([·])) = s :=
      Option.some.inj h
    have hcond := scopes_checkCondition c (subject.armCondition arm.guard)
    have hopen' : (c.checkCondition (subject.armCondition arm.guard)).scopes ≠ [] := hcond ▸ hopen
    have hbody := (scopes_checkNested hopen' arm.body).trans hcond
    have hfirst : ((c.checkCondition (subject.armCondition arm.guard)).checkNested arm.body).faults = [] ↔
        c.faults = [] ∧ (subject.armCondition arm.guard).IsCondition c.fetch? ∧ Block.IsClean c.fetch? arm.body := by
      rw [faults_checkNested_eq_nil hopen', fetch?_congr hcond, faults_checkCondition_eq_nil, and_assoc]
    cases hchain : Stmt.chain? subject arms with
    | none =>
      cases arms with
      | nil => simpa [checkStmt_cond] using hfirst
      | cons => simp [Stmt.chain?] at hchain
    | some t =>
      -- The rest of the chain is checked one scope further in, where the same names are seen.
      have hrest := ih hchain (push_open ((c.checkCondition (subject.armCondition arm.guard)).checkNested arm.body))
      rw [fetch?_push, fetch?_congr hbody, faults_push, hfirst] at hrest
      rw [Option.map_some, checkStmt_condElse, faults_checkNested, checkBlock, checkBlock, hrest, List.forall_mem_cons]
      simp only [and_assoc]

end Checker

/-! ## Everywhere in a program -/

theorem Gap.enter_open (g : Gap) (hopen : c.scopes ≠ []) : (g.enter c).scopes ≠ [] := by
  induction g generalizing c with
  | here before after => exact (checkBlock_extends before hopen).open_right
  | inside before layer inner after ih => exact ih (layer.enter_open _)

/-- At every place of every program a switch with arms and its chain give the same code and leave the same scopes. If
the program with the switch has no faults, the one with the chain has none; and the other way round, if the switch
has no subject or compares it with something. -/
theorem Program.Gap.fill_chain (g : Program.Gap) (subject : Expr) (first : Arm Stmt) (arms : List (Arm Stmt)) :
    ∃ s, Stmt.chain? subject (first :: arms) = some s ∧
      (g.fill s).code = (g.fill (.switch subject (first :: arms))).code ∧
      ((g.fill (.switch subject (first :: arms))).check.faults = [] → (g.fill s).check.faults = []) ∧
      ((subject = .absent ∨ ∃ arm ∈ first :: arms, arm.guard ≠ .absent) →
        (g.fill s).check.faults = [] → (g.fill (.switch subject (first :: arms))).check.faults = []) ∧
      (g.enter.checkStmt s).scopes = (g.enter.checkStmt (.switch subject (first :: arms))).scopes := by
  obtain ⟨s, hs⟩ : ∃ s, Stmt.chain? subject (first :: arms) = some s := ⟨_, rfl⟩
  have hopen : g.enter.scopes ≠ [] := g.body.enter_open (by simp [enterProcedure, outermost])
  have hdefined : s.defined? = none := by
    obtain rfl := Option.some.inj hs
    rfl
  have hswitch : (Stmt.switch subject (first :: arms)).defined? = none := rfl
  have hchainFaults := faults_checkStmt_chain_eq_nil hs hopen
  have hswitchFaults := faults_checkStmt_switch_eq_nil g.enter subject (first :: arms)
  refine ⟨s, hs, g.code_fill (Stmt.step?_of_chain? hs), ?_, fun hcompares => ?_, ?_⟩
  · refine g.faults_check_fill hswitch hdefined fun hnone => ?_
    obtain ⟨hbefore, hsubject, harms⟩ := hswitchFaults.mp hnone
    refine hchainFaults.mpr ⟨hbefore, fun arm harm => ⟨?_, (harms arm harm).2⟩⟩
    exact Expr.isCondition_armCondition_iff.mpr ⟨(harms arm harm).1, fun _ => hsubject⟩
  · refine g.faults_check_fill hdefined hswitch fun hnone => ?_
    obtain ⟨hbefore, harms⟩ := hchainFaults.mp hnone
    have hcondition := fun arm harm => Expr.isCondition_armCondition_iff.mp (harms arm harm).1
    refine hswitchFaults.mpr ⟨hbefore, ?_, fun arm harm => ⟨(hcondition arm harm).1, (harms arm harm).2⟩⟩
    rcases hcompares with rfl | ⟨arm, harm, hguard⟩
    · rfl
    · refine (hcondition arm harm).2 ?_
      rwa [← Bool.not_eq_true, Expr.isAbsent_iff]
  · rw [scopes_checkStmt hopen hdefined, scopes_checkStmt hopen hswitch]

/-- A gap in an arm of a switch, itself in an `else`, where an inner `x` hides an outer one. -/
def Program.Gap.shadowed : Program.Gap :=
  { name := "f"
    body := .inside [.assign "x" true (.literal (.integer 1))]
      (.inAlternative (.literal (.boolean true)) [])
      (.inside [] (.inArm (.name "x") [] (.literal (.integer 2)) [])
        (.here [.assign "x" true (.literal (.string "a"))] [.assign "y" true (.name "x")]) []) [] }

theorem Program.Gap.fill_chain_shadowed :
    (shadowed.fill (.switch (.name "x") [⟨.literal (.string "b"), [.assign "x" true (.literal (.boolean true))]⟩,
        ⟨.absent, [.assign "x" false (.literal (.string "c"))]⟩])).check.faults = [] ∧
      ∃ s, Stmt.chain? (.name "x") [⟨.literal (.string "b"), [.assign "x" true (.literal (.boolean true))]⟩,
          ⟨.absent, [.assign "x" false (.literal (.string "c"))]⟩] = some s ∧
        (shadowed.fill s).check.faults = [] := by
  obtain ⟨s, hs, -, hnone, -, -⟩ := shadowed.fill_chain (.name "x")
    ⟨.literal (.string "b"), [.assign "x" true (.literal (.boolean true))]⟩
    [⟨.absent, [.assign "x" false (.literal (.string "c"))]⟩]
  exact ⟨by decide, s, hs, hnone (by decide)⟩

/-- A subject that is compared with nothing is checked in the switch alone. -/
example : (Program.Gap.fill { name := "f", body := .here [] [] } (.switch (.name "x") [⟨.absent, []⟩])).check.faults =
      [⟨.notDefined "x", none⟩] ∧
    (Program.Gap.fill { name := "f", body := .here [] [] } (.cond (.literal (.boolean true)) [] none)).check.faults =
      [] := by
  decide

end AddressLines
