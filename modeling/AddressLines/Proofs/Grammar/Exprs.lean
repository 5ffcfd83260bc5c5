import AddressLines.Grammar.Program
import AddressLines.Proofs.Grammar.Sound
import AddressLines.Proofs.Tree.Exprs
import AddressLines.Proofs.Tree.NormalForm

/-!
# Expressions that are read

Reading an expression gives a tree in normal form, whatever the tokens are and whatever is wrong with them. So all
expressions of a reading are in normal form (`Reading.isNormal_of_mem_exprs`). In a reading without faults each of them
is absent or has tokens of its own (`Reading.yields_of_mem_exprs`).
-/

namespace AddressLines

/-! ## Normal form -/

namespace Reader

variable (r : Reader)

theorem isNormal_primary (power : BinOp → Power) (ts : List Token) :
    ((r.primary ts).recover .absent).value.root? = none ∧
      ((r.primary ts).recover .absent).value.isNormal power = true := by
  rw [Parsed.value_recover]
  split
  · rename_i e he
    cases ts with
    | nil => simp [primary] at he
    | cons t us =>
      simp only [primary] at he
      split_ifs at he with hid hlit
      · obtain rfl : Expr.name t.text = e := Except.ok.inj he
        exact ⟨rfl, rfl⟩
      · cases hliteral : t.literal with
        | error f => simp [hliteral, Except.map] at he
        | ok l =>
          obtain rfl : Expr.literal l = e := by simpa [hliteral, Except.map] using he
          exact ⟨rfl, rfl⟩
      · simp at he
  · exact ⟨rfl, rfl⟩

/-- An operand has no binary operator at its top, and none below its unary ones. -/
theorem isNormal_operand (power : BinOp → Power) (ts : List Token) :
    (r.operand ts).value.root? = none ∧ (r.operand ts).value.isNormal power = true := by
  induction ts with
  | nil => exact r.isNormal_primary power []
  | cons t us ih =>
    rw [operand]
    split_ifs
    · rw [Parsed.value_widen, Parsed.value_map]
      split_ifs with habsent
      · exact ⟨rfl, rfl⟩
      · exact ⟨rfl, Expr.isNormal_unary.mpr ⟨by simpa using habsent, ih.1, ih.2⟩⟩
    · exact r.isNormal_primary power (t :: us)

theorem isNormal_links (power : BinOp → Power) (floor : Power) (ts : List Token) :
    ∀ link ∈ (r.links floor ts).value, link.2.root? = none ∧ link.2.isNormal power = true := by
  fun_induction r.links floor ts with
  | case1 => simp
  | case2 => simp
  | case3 t us op hop hfloor ih =>
    exact List.forall_mem_cons.mpr ⟨r.isNormal_operand power us, ih _ (Parsed.suffix _).length_le⟩
  | case4 => simp

theorem isNormal_expression (floor : Power) (ts : List Token) :
    (r.expression floor ts).value.isNormal r.grammar.power = true :=
  Expr.isNormal_ofLinks (r.isNormal_operand _ ts).2 (r.isNormal_links _ floor _)

end Reader

/-! ## A property of all expressions -/

namespace Parsed

variable {α β : Type} {ts us : List Token} {Q : α → Prop} {W : β → Prop}

/-- The value has a property. -/
def Has (p : Parsed α ts) (Q : α → Prop) : Prop :=
  Q p.value

theorem Has.any (p : Parsed α ts) : p.Has fun _ => True :=
  trivial

theorem Has.map {p : Parsed α ts} {f : α → β} (h : p.Has Q) (himp : ∀ a, Q a → W (f a)) : (p.map f).Has W :=
  himp _ h

theorem Has.widen {p : Parsed α us} {hsuffix : us <:+ ts} (h : p.Has Q) : (p.widen hsuffix).Has Q :=
  h

theorem Has.andThen {p : Parsed α ts} {f : α → (us : List Token) → us.length ≤ ts.length → Parsed β us}
    (h : p.Has Q) (hf : ∀ a us hle, Q a → (f a us hle).Has W) : (p.andThen f).Has W :=
  hf p.value p.rest p.suffix.length_le h

end Parsed

namespace Reader

open Parsed

/-- A property of whatever is read as an expression, and of what is absent. -/
structure Ensures (r : Reader) (P : Expr → Prop) : Prop where
  absent : P .absent
  expression (ts : List Token) : (r.expression .lowest ts).Has P

namespace Ensures

variable {r : Reader} {P : Expr → Prop}

theorem assignedValue (h : r.Ensures P) (target : String) (defines : Bool) (ts : List Token) :
    (r.assignedValue target defines ts).Has fun s => ∀ e ∈ s.exprs, P e := by
  refine (h.expression ts).andThen fun e us _ he => (Has.any _).map fun _ _ => ?_
  simpa [Stmt.exprs] using he

theorem assignmentTo (h : r.Ensures P) (target : String) (declared : Bool) (ts : List Token) :
    (r.assignmentTo target declared ts).Has fun s => ∀ e ∈ s.exprs, P e := by
  simp only [Reader.assignmentTo]
  split_ifs
  · exact (h.assignedValue target true _).widen
  · exact (h.assignedValue target declared _).widen
  · simpa [Has, Stmt.exprs] using h.absent

theorem assignmentOf (h : r.Ensures P) (declared : Bool) (ts : List Token) :
    (r.assignmentOf declared ts).Has fun s => ∀ e ∈ s.exprs, P e :=
  (Has.any _).andThen fun target us _ _ => h.assignmentTo target declared us

mutual

theorem block (h : r.Ensures P) : (ts : List Token) → (r.block ts).Has fun b => ∀ e ∈ Block.exprs b, P e
  | [] => by
    rw [Reader.block]
    simp [Has, Block.exprs]
  | t :: us => by
    rw [Reader.block]
    split_ifs
    · exact (h.block us).widen
    · simp [Has, Block.exprs]
    · split
      · exact h.block us
      · rename_i form hform
        refine Has.widen ((h.statementOf form us).andThen fun s vs hle hs => ?_)
        have hlt : vs.length < (t :: us).length := Nat.lt_succ_of_le hle
        exact (h.block vs).map fun ss hss => List.forall_mem_append.mpr ⟨hs, hss⟩
termination_by ts => 8 * ts.length

theorem statementOf (h : r.Ensures P) (form : Form) (ts : List Token) :
    (r.statementOf form ts).Has fun s => ∀ e ∈ s.exprs, P e := by
  rw [Reader.statementOf.eq_def]
  cases form with
  | assignment target => exact h.assignmentTo target false ts
  | opening o =>
    cases o with
    | declaration => exact h.assignmentOf true ts
    | conditional => exact h.conditional ts
    | selection => exact h.selection ts
    | branch b => exact (Has.any _).map fun _ _ => by simp [Stmt.exprs]
termination_by 8 * ts.length + 5

theorem braces (h : r.Ensures P) (ts : List Token) : (r.braces ts).Has fun b => ∀ e ∈ Block.exprs b, P e := by
  rw [Reader.braces]
  refine (Has.any _).andThen fun _ us hle _ => ?_
  exact (h.block us).andThen fun body vs _ hbody => (Has.any _).map fun _ _ => hbody
termination_by 8 * ts.length + 1

theorem conditional (h : r.Ensures P) (ts : List Token) :
    (r.conditional ts).Has fun s => ∀ e ∈ s.exprs, P e := by
  rw [Reader.conditional]
  refine (h.expression ts).andThen fun condition us hle hcondition => ?_
  refine (h.braces us).andThen fun body vs hle' hbody => ?_
  refine (h.alternative vs).andThen fun alternative ws _ halternative => (Has.any _).map fun _ _ => ?_
  cases alternative with
  | none => exact List.forall_mem_cons.mpr ⟨hcondition, hbody⟩
  | some body' =>
    exact List.forall_mem_cons.mpr ⟨hcondition, List.forall_mem_append.mpr ⟨hbody, halternative body' rfl⟩⟩
termination_by 8 * ts.length + 4

theorem alternative (h : r.Ensures P) : (ts : List Token) →
    (r.alternative ts).Has fun o => ∀ body ∈ o, ∀ e ∈ Block.exprs body, P e
  | [] => by
    rw [Reader.alternative]
    simp [Has]
  | t :: us => by
    rw [Reader.alternative]
    split_ifs
    · exact (h.alternative us).widen
    · refine Has.widen ((h.braces us).map fun body hbody => ?_)
      rintro _ ⟨⟩
      exact hbody
    · simp [Has]
termination_by ts => 8 * ts.length + 2

theorem selection (h : r.Ensures P) (ts : List Token) : (r.selection ts).Has fun s => ∀ e ∈ s.exprs, P e := by
  have hsubject : Has (if nextIs openBrace ts then
        (⟨.absent, skipLineEnds ts, [], skipLineEnds_suffix ts⟩ : Parsed Expr ts)
      else (r.expression .lowest (skipLineEnds ts)).widen (skipLineEnds_suffix ts)) P := by
    split_ifs
    · exact h.absent
    · exact (h.expression _).widen
  rw [Reader.selection]
  refine hsubject.andThen fun subject us hle hsubject => ?_
  refine (Has.any _).andThen fun _ vs hle' _ => ?_
  refine (h.arms vs).andThen fun arms ws _ harms => ?_
  refine (Has.any _).andThen fun _ xs _ _ => (Has.any _).map fun _ _ => ?_
  exact List.forall_mem_cons.mpr ⟨hsubject, harms⟩
termination_by 8 * ts.length + 4

theorem arms (h : r.Ensures P) : (ts : List Token) →
    (r.arms ts).Has fun arms => ∀ e ∈ Arm.allExprs arms, P e
  | [] => by
    rw [Reader.arms]
    simp [Has, Arm.allExprs]
  | t :: us => by
    rw [Reader.arms]
    split_ifs
    · exact (h.arms us).widen
    · refine Has.widen ((h.armOf _ us).andThen fun arm vs hle harm => ?_)
      have hlt : vs.length < (t :: us).length := Nat.lt_succ_of_le hle
      refine (h.arms vs).map fun more hmore => ?_
      exact List.forall_mem_cons.mpr ⟨harm.1, List.forall_mem_append.mpr ⟨harm.2, hmore⟩⟩
    · simp [Has, Arm.allExprs]
termination_by ts => 8 * ts.length + 3

theorem armOf (h : r.Ensures P) (guarded : Bool) (ts : List Token) :
    (r.armOf guarded ts).Has fun arm => P arm.guard ∧ ∀ e ∈ Block.exprs arm.body, P e := by
  have hguard : Has (if guarded then r.expression .lowest ts else .pure .absent) P := by
    split_ifs
    · exact h.expression ts
    · exact h.absent
  rw [Reader.armOf]
  refine hguard.andThen fun guard us hle hguard => ?_
  refine (Has.any _).andThen fun _ vs hle' _ => ?_
  exact (h.block vs).map fun body hbody => ⟨hguard, hbody⟩
termination_by 8 * ts.length + 1

end

theorem procedureBy (h : r.Ensures P) (t : Token) (us : List Token) :
    (r.procedureBy t us).Has fun p => ∀ q ∈ p, ∀ e ∈ Block.exprs q.body, P e := by
  rw [Reader.procedureBy]
  split_ifs
  · refine (Has.any _).andThen fun name us _ _ => (Has.any _).andThen fun _ vs _ _ => ?_
    refine (Has.any _).andThen fun _ ws _ _ => (h.braces ws).map fun body hbody q hq => ?_
    obtain ⟨x, -, rfl⟩ := Option.map_eq_some_iff.mp hq
    exact hbody
  · simp [Has]

theorem procedures (h : r.Ensures P) (ts : List Token) :
    (r.procedures ts).Has fun ps => ∀ q ∈ ps, ∀ e ∈ Block.exprs q.body, P e := by
  fun_induction r.procedures ts with
  | case1 => simp [Has]
  | case2 t us hend ih => exact ih.widen
  | case3 t us hend ih =>
    refine Has.widen ((h.procedureBy t us).andThen fun p vs hle hp => ?_)
    refine (ih vs hle).map fun ps hps => ?_
    exact List.forall_mem_append.mpr ⟨by simpa using hp, hps⟩

end Ensures

end Reader

/-- All expressions of a reading are in normal form, whatever is wrong with it. -/
theorem Reading.isNormal_of_mem_exprs {ts : List Token} {e : Expr} (he : e ∈ (Reading.ofTokens ts).program.exprs) :
    e.isNormal BinOp.power = true := by
  have hnormal : (Reader.standard ts).Ensures fun e => e.isNormal BinOp.power = true :=
    ⟨rfl, (Reader.standard ts).isNormal_expression .lowest⟩
  unfold Reading.ofTokens at he
  dsimp only at he
  split at he
  · cases he
  · obtain ⟨q, hq, he⟩ := List.mem_flatMap.mp he
    exact hnormal.procedures _ q hq e he

/-! ## Tokens -/

mutual

theorem Stmt.Yields.of_mem_exprs {e : Expr} : ∀ {s : Stmt} {ts : List Token}, s.Yields ts → e ∈ s.exprs →
    e = .absent ∨ ∃ es, e.Yields es
  | _, _, .assign _ _ hv, he => .inr ⟨_, List.mem_singleton.mp he ▸ hv⟩
  | _, _, .define _ _ hv, he => .inr ⟨_, List.mem_singleton.mp he ▸ hv⟩
  | _, _, .declare _ _ _ hv, he => .inr ⟨_, List.mem_singleton.mp he ▸ hv⟩
  | _, _, .branch _, he => by cases he
  | _, _, .cond _ hc hb, he => by
    rcases List.mem_cons.mp he with rfl | he
    · exact .inr ⟨_, hc⟩
    · exact hb.of_mem_exprs he
  | _, _, .condElse _ hc hb _ ha, he => by
    rcases List.mem_cons.mp he with rfl | he
    · exact .inr ⟨_, hc⟩
    · rcases List.mem_append.mp he with he | he
      · exact hb.of_mem_exprs he
      · exact ha.of_mem_exprs he
  | _, _, .tagless _ _ ha _, he => by
    rcases List.mem_cons.mp he with rfl | he
    · exact .inl rfl
    · exact ha.of_mem_exprs he
  | _, _, .tagged _ hs _ ha _, he => by
    rcases List.mem_cons.mp he with rfl | he
    · exact .inr ⟨_, hs⟩
    · exact ha.of_mem_exprs he

theorem Block.Yields.of_mem_exprs {e : Expr} : ∀ {b : Block} {ts : List Token}, Block.Yields b ts →
    e ∈ Block.exprs b → e = .absent ∨ ∃ es, e.Yields es
  | _, _, .nil, he => by cases he
  | _, _, .cons hs hss, he => by
    rcases List.mem_append.mp he with he | he
    · exact hs.of_mem_exprs he
    · exact hss.of_mem_exprs he

theorem Block.Braced.of_mem_exprs {e : Expr} : ∀ {b : Block} {ts : List Token}, Block.Braced b ts →
    e ∈ Block.exprs b → e = .absent ∨ ∃ es, e.Yields es
  | _, _, .mk _ hb _, he => hb.of_mem_exprs he

theorem Arm.Yield.of_mem_exprs {e : Expr} : ∀ {arms : List (Arm Stmt)} {ts : List Token}, Arm.Yield arms ts →
    e ∈ Arm.allExprs arms → e = .absent ∨ ∃ es, e.Yields es
  | _, _, .nil, he => by cases he
  | _, _, .guarded _ hg _ hb ha, he => by
    rcases List.mem_cons.mp he with rfl | he
    · exact .inr ⟨_, hg⟩
    · rcases List.mem_append.mp he with he | he
      · exact hb.of_mem_exprs he
      · exact ha.of_mem_exprs he
  | _, _, .default _ _ hb ha, he => by
    rcases List.mem_cons.mp he with rfl | he
    · exact .inl rfl
    · rcases List.mem_append.mp he with he | he
      · exact hb.of_mem_exprs he
      · exact ha.of_mem_exprs he

end

theorem Procedure.Yield.of_mem_exprs {ps : List Procedure} {ts : List Token} (h : Procedure.Yield ps ts) {e : Expr}
    (he : e ∈ ps.flatMap fun q => Block.exprs q.body) : e = .absent ∨ ∃ es, e.Yields es := by
  induction h with
  | nil => cases he
  | cons hp _ ih =>
    obtain ⟨_, _, _, _, hb⟩ := hp
    rw [List.flatMap_cons] at he
    rcases List.mem_append.mp he with he | he
    · exact hb.of_mem_exprs he
    · exact ih he

/-- An expression of a reading without faults is absent or is made of tokens. -/
theorem Reading.yields_of_mem_exprs {ts : List Token} (hnone : (Reading.ofTokens ts).program.faults = []) {e : Expr}
    (he : e ∈ (Reading.ofTokens ts).program.exprs) : e = .absent ∨ ∃ es, e.Yields es := by
  cases hclause : ((Reader.standard ts).packageClause ts).value with
  | none => simp [Reading.ofTokens, hclause, Program.exprs] at he
  | some x =>
    simp only [Reading.ofTokens, hclause, List.append_eq_nil_iff] at hnone he
    obtain ⟨ps, hps, -⟩ := Reader.procedures_reads rfl _ hnone.2
    exact hps.of_mem_exprs he

end AddressLines
