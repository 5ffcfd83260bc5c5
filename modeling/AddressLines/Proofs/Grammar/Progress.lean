import AddressLines.Proofs.Grammar.Climbing
import AddressLines.Proofs.Grammar.Layout

/-!
# Reading comes to an end

Reading is four loops and the parts that their turns read: procedures up to the end of the tokens, statements up to the
end of a block, arms of a switch, operators of an expression. Statements and arms have blocks in them, so the loops
nest.

The code of each part calls the readers of other parts (`Reader.unroll`). Code that came back to where it was without
having taken a token would leave open what is read there. It never does: every turn of a loop takes a token, whatever
the tokens are (`Advances`), and for lists of at most `n` tokens the code has one solution, which is the readers there
are (`Readers.agree_of_unroll`).
-/

namespace AddressLines

theorem length_tail_skipLineEnds_lt {ts : List Token} (h : ts ≠ []) : (skipLineEnds ts).tail.length < ts.length := by
  have hle := (skipLineEnds_suffix ts).length_le
  have hpos := List.length_pos_iff.mpr h
  rw [List.length_tail]
  omega

/-! ## Loops -/

/-- Where the loop does not stop, a turn takes a token. -/
def Advances {α : Type} (stops : List Token → Bool) (turn : (ts : List Token) → Parsed α ts) : Prop :=
  ∀ ts, stops ts = false → (turn ts).rest.length < ts.length

theorem Advances.of_tail {α : Type} {stops : List Token → Bool} {turn : (ts : List Token) → Parsed α ts}
    (hstops : stops [] = true) (hle : ∀ ts, (turn ts).rest.length ≤ (skipLineEnds ts).tail.length) :
    Advances stops turn := by
  intro ts hts
  have hne : ts ≠ [] := by
    rintro rfl
    rw [hstops] at hts
    cases hts
  exact Nat.lt_of_le_of_lt (hle ts) (length_tail_skipLineEnds_lt hne)

namespace Parsed

variable {α β : Type} {ts : List Token}

theorem andThen_congr_rest {p q : Parsed α ts} {f g : α → (us : List Token) → us.length ≤ ts.length → Parsed β us}
    (h : p = q) (hf : f q.value q.rest q.suffix.length_le = g q.value q.rest q.suffix.length_le) :
    p.andThen f = q.andThen g := by
  subst h
  refine eq_of_parts ?_ ?_ ?_
  · rw [value_andThen, value_andThen, hf]
  · rw [rest_andThen, rest_andThen, hf]
  · rw [faults_andThen, faults_andThen, hf]

theorem andThen_congr {p q : Parsed α ts} {f g : α → (us : List Token) → us.length ≤ ts.length → Parsed β us}
    (h : p = q) (hf : ∀ (a : α) (us : List Token) (hle : us.length ≤ ts.length), f a us hle = g a us hle) :
    p.andThen f = q.andThen g :=
  andThen_congr_rest h (hf _ _ _)

/-- Reads behind line ends. -/
def afterLineEnds (f : (ts : List Token) → Parsed α ts) (ts : List Token) : Parsed α ts :=
  (f (skipLineEnds ts)).widen (skipLineEnds_suffix ts)

theorem afterLineEnds_congr {f g : (ts : List Token) → Parsed α ts} (h : f (skipLineEnds ts) = g (skipLineEnds ts)) :
    afterLineEnds f ts = afterLineEnds g ts := by
  rw [afterLineEnds, afterLineEnds, h]

/-- A reader that passes over line ends is told by what it does at other tokens. -/
theorem eq_afterLineEnds {f g : (ts : List Token) → Parsed α ts} (hskip : ∀ ts, f ts = afterLineEnds f ts)
    (hnil : f [] = g []) (hcons : ∀ (t : Token) (us : List Token), t.isLineEnd = false → f (t :: us) = g (t :: us)) :
    f = afterLineEnds g := by
  funext ts
  have hbody : f (skipLineEnds ts) = g (skipLineEnds ts) := by
    cases hs : skipLineEnds ts with
    | nil => exact hnil
    | cons t us => exact hcons t us (isLineEnd_of_skipLineEnds hs)
  rw [hskip, afterLineEnds_congr hbody]

/-- A loop from its next turn on: if it does not stop, one turn and then the loop `again`. -/
def loop (stops : List Token → Bool) (turn again : (ts : List Token) → Parsed (List α) ts) :
    (ts : List Token) → Parsed (List α) ts :=
  afterLineEnds fun ts =>
    if stops ts then .pure [] else (turn ts).andThen fun as us _ => (again us).map (as ++ ·)

variable {stops : List Token → Bool} {turn turn' again again' : (ts : List Token) → Parsed (List α) ts}

theorem eq_loop {f : (ts : List Token) → Parsed (List α) ts} (hskip : ∀ ts, f ts = afterLineEnds f ts)
    (hnil : f [] = if stops [] then .pure [] else (turn []).andThen fun as us _ => (f us).map (as ++ ·))
    (hstop : ∀ (t : Token) (us : List Token), t.isLineEnd = false → stops (t :: us) = true → f (t :: us) = .pure [])
    (hturn : ∀ (t : Token) (us : List Token), t.isLineEnd = false → stops (t :: us) = false →
      f (t :: us) = (turn (t :: us)).andThen fun as us _ => (f us).map (as ++ ·)) :
    f = loop stops turn f := by
  refine eq_afterLineEnds hskip hnil fun t us hend => ?_
  split_ifs with hstops
  · exact hstop t us hend hstops
  · exact hturn t us hend (by simpa using hstops)

/-- A loop is determined by its turn, and by what it does when fewer tokens are left. -/
theorem loop_congr (hturn : turn (skipLineEnds ts) = turn' (skipLineEnds ts)) (hadvances : Advances stops turn')
    (hagain : ∀ us, us.length < ts.length → again us = again' us) :
    loop stops turn again ts = loop stops turn' again' ts := by
  refine afterLineEnds_congr ?_
  split_ifs with hstops
  · rfl
  · have hlt := hadvances _ (by simpa using hstops)
    have hle := (skipLineEnds_suffix ts).length_le
    exact andThen_congr_rest hturn (by rw [hagain _ (by omega)])

/-- A loop ends only where it stops. -/
theorem stops_rest (hloop : again = loop stops turn again) (hadvances : Advances stops turn) (ts : List Token) :
    stops (again ts).rest = true := by
  induction hlen : ts.length using Nat.strongRecOn generalizing ts with
  | ind n ih =>
    rw [hloop, loop, afterLineEnds, rest_widen]
    split_ifs with hstops
    · exact hstops
    · have hlt := hadvances _ (by simpa using hstops)
      have hle := (skipLineEnds_suffix ts).length_le
      exact ih _ (by omega) (turn (skipLineEnds ts)).rest rfl

end Parsed

/-! ## The code of the readers -/

/-- Readers for the loops and for what their turns read. -/
@[ext]
structure Readers where
  expression : Power → (ts : List Token) → Parsed Expr ts
  climb : Power → Expr → (ts : List Token) → Parsed Expr ts
  statement : (ts : List Token) → Parsed (Except Fault Stmt) ts
  block : (ts : List Token) → Parsed Block ts
  conditional : (ts : List Token) → Parsed Stmt ts
  selection : (ts : List Token) → Parsed Stmt ts
  arm : (ts : List Token) → Parsed (Arm Stmt) ts
  arms : (ts : List Token) → Parsed (List (Arm Stmt)) ts
  procedure : (ts : List Token) → Parsed (Option Procedure) ts
  procedures : (ts : List Token) → Parsed (List Procedure) ts

/-- The block ends here. -/
def endsBlock (ts : List Token) : Bool :=
  ts.head?.all Token.closesBlock

/-- No arm of a switch follows. -/
def endsArms (ts : List Token) : Bool :=
  ts.head?.all fun t => t.text != "case" && t.text != "default"

/-- The next operator, if it is stronger than `floor`. -/
def Reader.operator? (r : Reader) (floor : Power) (ts : List Token) : Option BinOp :=
  (ts.head?.bind Token.binOp?).filter fun op => floor < r.grammar.power op

namespace Readers

variable (R : Readers)

/-- An operator, taken with all that is stronger than itself and put above `left`. -/
def operatorTurn (r : Reader) (op : BinOp) (left : Expr) (ts : List Token) : Parsed Expr ts :=
  ((R.expression (r.grammar.power op) ts.tail).map fun right => .binary left op right).widen (List.tail_suffix ts)

/-- A statement, or a token that is reported and skipped. -/
def statementTurn (ts : List Token) : Parsed (List Stmt) ts :=
  (R.statement ts).andThen fun outcome us _ =>
    match outcome with
    | .ok s => .pure [s]
    | .error f => ⟨[], us.tail, [f], List.tail_suffix us⟩

def armTurn (ts : List Token) : Parsed (List (Arm Stmt)) ts :=
  (R.arm ts).map fun arm => [arm]

/-- A procedure, which is dropped if it has no name. -/
def procedureTurn (ts : List Token) : Parsed (List Procedure) ts :=
  (R.procedure ts).map Option.toList

def statementOf (r : Reader) (form : Form) (ts : List Token) : Parsed Stmt ts :=
  match form with
  | .assignment target => r.assignmentTo target false ts
  | .opening .declaration => r.assignmentOf true ts
  | .opening .conditional => R.conditional ts
  | .opening .selection => R.selection ts
  | .opening (.branch b) => (skipTerminator ts).map fun _ => .branch b

def braces (r : Reader) (ts : List Token) : Parsed Block ts :=
  (r.consume openBrace ts).andThen fun _ us _ =>
    (R.block us).andThen fun body vs _ => (r.consume closeBrace vs).map fun _ => body

def statementAt (r : Reader) : (ts : List Token) → Parsed (Except Fault Stmt) ts
  | [] => .pure (.error (r.unexpected "Statement" []))
  | t :: us =>
    match r.grammar.form? t with
    | none => .pure (.error (r.unexpected "Statement" (t :: us)))
    | some form => ((R.statementOf r form us).map .ok).widen (List.suffix_cons t us)

def alternativeAt (r : Reader) : (ts : List Token) → Parsed (Option Block) ts
  | [] => .pure none
  | t :: us => if t.text = "else" then ((R.braces r us).map some).widen (List.suffix_cons t us) else .pure none

def procedureAt (r : Reader) : (ts : List Token) → Parsed (Option Procedure) ts
  | [] => (Parsed.pure none).report (r.unexpected "func" [])
  | t :: us =>
    (if t.text = "func" then
      (((r.identifier us).map fun name => name.map some).recover none).andThen fun name vs _ =>
        (r.consume "(" vs).andThen fun _ ws _ =>
          (r.consume ")" ws).andThen fun _ xs _ =>
            (R.braces r xs).map fun body => name.map fun x => ⟨x, body⟩
    else (Parsed.pure none).report (r.unexpected "func" (t :: us))).widen (List.suffix_cons t us)

/-- The same readings of a list of tokens. -/
structure Agree (R S : Readers) (ts : List Token) : Prop where
  expression : ∀ floor, R.expression floor ts = S.expression floor ts
  climb : ∀ floor left, R.climb floor left ts = S.climb floor left ts
  statement : R.statement ts = S.statement ts
  block : R.block ts = S.block ts
  conditional : R.conditional ts = S.conditional ts
  selection : R.selection ts = S.selection ts
  arm : R.arm ts = S.arm ts
  arms : R.arms ts = S.arms ts
  procedure : R.procedure ts = S.procedure ts
  procedures : R.procedures ts = S.procedures ts

end Readers

namespace Reader

/-- The code of each part, with `R` for the readers that it calls. -/
def unroll (r : Reader) (R : Readers) : Readers where
  expression floor ts := (r.operand ts).andThen fun left us _ => R.climb floor left us
  climb floor left ts :=
    match r.operator? floor ts with
    | none => .pure left
    | some op => (R.operatorTurn r op left ts).andThen fun e us _ => R.climb floor e us
  statement := .afterLineEnds (R.statementAt r)
  block := .loop endsBlock R.statementTurn R.block
  conditional ts :=
    (r.expression .lowest ts).andThen fun condition us _ =>
      (R.braces r us).andThen fun body vs _ =>
        (Parsed.afterLineEnds (R.alternativeAt r) vs).andThen fun alternative ws _ =>
          (skipTerminator ws).map fun _ => .cond condition body alternative
  selection ts :=
    (if nextIs openBrace ts then ⟨.absent, skipLineEnds ts, [], skipLineEnds_suffix ts⟩
      else (r.expression .lowest (skipLineEnds ts)).widen (skipLineEnds_suffix ts)).andThen
    fun subject us _ =>
      (r.consume openBrace us).andThen fun _ vs _ =>
        (R.arms vs).andThen fun arms ws _ =>
          (r.consume closeBrace ws).andThen fun _ xs _ =>
            (skipTerminator xs).map fun _ => .switch subject arms
  arm ts :=
    ((if nextIs "case" ts then r.expression .lowest (skipLineEnds ts).tail else .pure .absent).andThen
      fun guard us _ => (r.consume ":" us).andThen fun _ vs _ =>
        (R.block vs).map fun body => ⟨guard, body⟩).widen (tail_skipLineEnds_suffix ts)
  arms := .loop endsArms R.armTurn R.arms
  procedure := .afterLineEnds (R.procedureAt r)
  procedures := .loop List.isEmpty R.procedureTurn R.procedures

def readers (r : Reader) : Readers where
  expression := r.expression
  climb := r.climb
  statement := r.statement
  block := r.block
  conditional := r.conditional
  selection := r.selection
  arm := r.armAt
  arms := r.arms
  procedure := r.procedure
  procedures := r.procedures

/-! ## The readers follow the code -/

variable (r : Reader)

theorem operator?_cons (floor : Power) (t : Token) (us : List Token) :
    r.operator? floor (t :: us) = t.binOp?.filter fun op => floor < r.grammar.power op :=
  rfl

theorem climb_eq_unroll (floor : Power) (left : Expr) (ts : List Token) :
    r.climb floor left ts = (r.unroll r.readers).climb floor left ts := by
  cases ts with
  | nil => rw [climb]; rfl
  | cons t us =>
    rw [climb]
    simp only [unroll, operator?_cons]
    cases hop : t.binOp? with
    | none => rfl
    | some op =>
      by_cases hfloor : floor < r.grammar.power op
      · rw [Option.filter_some_pos (by simpa using hfloor)]
        simp only [if_pos hfloor]
        rfl
      · rw [Option.filter_some_neg (by simpa using hfloor)]
        simp only [if_neg hfloor]

theorem statementOf_readers (form : Form) (ts : List Token) :
    r.readers.statementOf r form ts = r.statementOf form ts := by
  rw [statementOf.eq_def]
  rfl

theorem statement_eq_unroll : r.statement = (r.unroll r.readers).statement := by
  have hskip := Parsed.eq_widen_skip (f := r.statement) fun t us hend => by rw [statement, if_pos hend]
  refine Parsed.eq_afterLineEnds (g := r.readers.statementAt r) hskip rfl fun t us hend => ?_
  rw [statement, if_neg (by simp [hend])]
  cases hform : r.grammar.form? t with
  | none => simp only [Readers.statementAt, hform]
  | some form => simp only [Readers.statementAt, hform, statementOf_readers]

theorem block_eq_loop : r.block = Parsed.loop endsBlock r.readers.statementTurn r.block := by
  refine Parsed.eq_loop r.block_eq_skip (by rw [block]; rfl) ?_ ?_
  · intro t us hend hstops
    rw [block, if_neg (by simp [hend]), if_pos (by simpa [endsBlock] using hstops)]
  · intro t us hend hstops
    rw [block, if_neg (by simp [hend]), if_neg (by simpa [endsBlock] using hstops)]
    cases hform : r.grammar.form? t with
    | none =>
      -- reading a statement leaves the token, and the turn takes it
      have hturn : r.readers.statementTurn (t :: us) =
          ⟨[], us, [r.unexpected "Statement" (t :: us)], List.suffix_cons t us⟩ := by
        simp [Readers.statementTurn, readers, statement, hend, hform, Parsed.andThen]
      rw [hturn]
      rfl
    | some form =>
      have hturn : r.readers.statementTurn (t :: us) =
          ((r.statementOf form us).map fun s => [s]).widen (List.suffix_cons t us) := by
        refine Parsed.eq_of_parts ?_ ?_ ?_ <;> simp [Readers.statementTurn, readers, statement, hend, hform]
      rw [hturn]
      rfl

theorem braces_readers (ts : List Token) : r.readers.braces r ts = r.braces ts := by
  rw [braces]
  rfl

theorem alternative_eq_afterLineEnds : r.alternative = Parsed.afterLineEnds (r.readers.alternativeAt r) := by
  refine Parsed.eq_afterLineEnds r.alternative_eq_skip (by rw [alternative]; rfl) fun t us hend => ?_
  rw [alternative, if_neg (by simp [hend])]
  simp only [Readers.alternativeAt, braces_readers]

theorem conditional_eq_unroll (ts : List Token) : r.conditional ts = (r.unroll r.readers).conditional ts := by
  rw [conditional]
  simp only [unroll, braces_readers, alternative_eq_afterLineEnds]

theorem selection_eq_unroll (ts : List Token) : r.selection ts = (r.unroll r.readers).selection ts := by
  rw [selection]
  rfl

theorem armAt_eq_unroll (ts : List Token) : r.armAt ts = (r.unroll r.readers).arm ts := by
  rw [armAt, armOf]
  rfl

theorem arms_eq_loop : r.arms = Parsed.loop endsArms r.readers.armTurn r.arms := by
  refine Parsed.eq_loop r.arms_eq_skip (by rw [arms]; rfl) ?_ ?_
  · intro t us hend hstops
    rw [arms, if_neg (by simp [hend]), if_neg (by simpa [endsArms] using hstops)]
  · intro t us hend hstops
    have harm : t.text = "case" ∨ t.text = "default" :=
      Decidable.or_iff_not_imp_left.mpr (by simpa [endsArms] using hstops)
    have hnext : nextIs "case" (t :: us) = (t.text == "case") := by simp [nextIs, skipLineEnds_cons us hend]
    have hturn : r.readers.armTurn (t :: us) =
        ((r.armOf (t.text == "case") us).map fun arm => [arm]).widen (List.suffix_cons t us) := by
      show (r.armAt (t :: us)).map _ = _
      rw [armAt, hnext]
      exact congrArg _ (Parsed.widen_congr (r.armOf _) (congrArg List.tail (skipLineEnds_cons us hend)) _
        (List.suffix_cons t us))
    rw [arms, if_neg (by simp [hend]), if_pos harm, hturn]
    rfl

theorem procedure_eq_unroll : r.procedure = (r.unroll r.readers).procedure := by
  have hskip := Parsed.eq_widen_skip (f := r.procedure) fun t us hend => by rw [procedure, if_pos hend]
  refine Parsed.eq_afterLineEnds (g := r.readers.procedureAt r) hskip rfl fun t us hend => ?_
  rw [procedure, if_neg (by simp [hend])]
  simp only [Readers.procedureAt, braces_readers]
  rfl

theorem procedures_eq_loop : r.procedures = Parsed.loop List.isEmpty r.readers.procedureTurn r.procedures := by
  refine Parsed.eq_loop r.procedures_eq_skip (by rw [procedures]; rfl) ?_ ?_
  · intro t us _ hstops
    cases hstops
  · intro t us hend _
    have hturn : r.readers.procedureTurn (t :: us) =
        ((r.procedureBy t us).map Option.toList).widen (List.suffix_cons t us) := by
      show (r.procedure (t :: us)).map _ = _
      rw [procedure, if_neg (by simp [hend])]
      rfl
    rw [procedures, if_neg (by simp [hend]), hturn]
    rfl

theorem unroll_readers : r.unroll r.readers = r.readers :=
  Readers.ext (funext fun floor => funext fun ts => (r.expression_eq_climb floor ts).symm)
    (funext fun floor => funext fun left => funext fun ts => (r.climb_eq_unroll floor left ts).symm)
    r.statement_eq_unroll.symm r.block_eq_loop.symm (funext fun ts => (r.conditional_eq_unroll ts).symm)
    (funext fun ts => (r.selection_eq_unroll ts).symm) (funext fun ts => (r.armAt_eq_unroll ts).symm)
    r.arms_eq_loop.symm r.procedure_eq_unroll.symm r.procedures_eq_loop.symm

/-! ## Every turn takes a token -/

theorem procedureTurn_advances : Advances List.isEmpty r.readers.procedureTurn := by
  refine .of_tail rfl fun ts => ?_
  show (r.procedure ts).rest.length ≤ _
  rw [r.procedure_eq_unroll]
  show (r.readers.procedureAt r (skipLineEnds ts)).rest.length ≤ _
  cases skipLineEnds ts with
  | nil => exact Nat.le_refl 0
  | cons t us =>
    rw [Readers.procedureAt, Parsed.rest_widen]
    exact (Parsed.suffix _).length_le

theorem statementTurn_advances : Advances endsBlock r.readers.statementTurn := by
  refine .of_tail rfl fun ts => ?_
  have hstatement : r.readers.statement ts =
      (r.readers.statementAt r (skipLineEnds ts)).widen (skipLineEnds_suffix ts) := congrFun r.statement_eq_unroll ts
  rw [Readers.statementTurn, hstatement, Parsed.rest_andThen, Parsed.value_widen, Parsed.rest_widen]
  cases skipLineEnds ts with
  | nil => exact Nat.le_refl 0
  | cons t us =>
    cases hform : r.grammar.form? t with
    | none => simp [Readers.statementAt, hform]
    | some form =>
      simp only [Readers.statementAt, hform, Parsed.value_widen, Parsed.value_map, Parsed.rest_pure, Parsed.rest_widen]
      exact (r.readers.statementOf r form us).suffix.length_le

theorem armTurn_advances : Advances endsArms r.readers.armTurn :=
  .of_tail rfl fun ts => (r.armOf (nextIs "case" ts) (skipLineEnds ts).tail).suffix.length_le

theorem operatorTurn_advances {floor : Power} {op : BinOp} {ts : List Token} (h : r.operator? floor ts = some op)
    (left : Expr) : (r.readers.operatorTurn r op left ts).rest.length < ts.length := by
  cases ts with
  | nil => cases h
  | cons t us => exact Nat.lt_succ_of_le (r.expression (r.grammar.power op) us).suffix.length_le

end Reader

/-! ## One solution -/

namespace Readers

open Reader Parsed

variable {r : Reader} {R : Readers} {n : Nat}

section

/- The readers `R` follow the code on lists of at most `n` tokens, and on lists of fewer they read what `r` reads. The
parts come in such an order that each calls a part before it with no more tokens, and any part with fewer. -/
variable (hcode : ∀ ts, ts.length ≤ n → (r.unroll R).Agree R ts) (hfewer : ∀ ts, ts.length < n → R.Agree r.readers ts)

include hcode hfewer

variable {ts : List Token} (hts : ts.length ≤ n)

include hts

theorem climb_agrees (floor : Power) (left : Expr) : R.climb floor left ts = r.climb floor left ts := by
  rw [← (hcode ts hts).climb, climb_eq_unroll]
  simp only [unroll]
  cases hop : r.operator? floor ts with
  | none => rfl
  | some op =>
    have hlt := r.operatorTurn_advances hop left
    have htail : ts.tail.length < n := by
      rw [List.length_tail]
      omega
    have hturn : R.operatorTurn r op left ts = r.readers.operatorTurn r op left ts := by
      unfold operatorTurn
      rw [(hfewer ts.tail htail).expression]
    exact andThen_congr_rest hturn ((hfewer _ (by omega)).climb floor _)

theorem expression_agrees (floor : Power) : R.expression floor ts = r.expression floor ts := by
  rw [← (hcode ts hts).expression, expression_eq_climb]
  exact andThen_congr rfl fun left us hus => climb_agrees hcode hfewer (Nat.le_trans hus hts) floor left

omit hcode in
theorem statementAt_agrees : R.statementAt r ts = r.readers.statementAt r ts := by
  cases ts with
  | nil => rfl
  | cons t us =>
    have hus := hfewer us hts
    have hforms : ∀ form, R.statementOf r form us = r.readers.statementOf r form us := by
      intro form
      cases form with
      | assignment target => rfl
      | opening o =>
        cases o with
        | conditional => exact hus.conditional
        | selection => exact hus.selection
        | _ => rfl
    simp only [statementAt, hforms]

theorem statement_agrees : R.statement ts = r.statement ts := by
  have hle := (skipLineEnds_suffix ts).length_le
  rw [← (hcode ts hts).statement, statement_eq_unroll]
  exact afterLineEnds_congr (statementAt_agrees hfewer (by omega))

theorem block_agrees : R.block ts = r.block ts := by
  have hle := (skipLineEnds_suffix ts).length_le
  have hturn : R.statementTurn (skipLineEnds ts) = r.readers.statementTurn (skipLineEnds ts) :=
    andThen_congr (statement_agrees hcode hfewer (by omega)) fun _ _ _ => rfl
  rw [← (hcode ts hts).block, block_eq_loop]
  exact loop_congr hturn r.statementTurn_advances fun us hus => (hfewer us (by omega)).block

theorem braces_agrees : R.braces r ts = r.readers.braces r ts := by
  refine andThen_congr rfl fun _ us hus => ?_
  exact andThen_congr (block_agrees hcode hfewer (Nat.le_trans hus hts)) fun _ _ _ => rfl

theorem alternativeAt_agrees : R.alternativeAt r ts = r.readers.alternativeAt r ts := by
  cases ts with
  | nil => rfl
  | cons t us => simp only [alternativeAt, braces_agrees hcode hfewer (Nat.le_of_lt hts)]

theorem conditional_agrees : R.conditional ts = r.conditional ts := by
  rw [← (hcode ts hts).conditional, conditional_eq_unroll]
  simp only [unroll]
  refine andThen_congr rfl fun condition us hus => ?_
  refine andThen_congr (braces_agrees hcode hfewer (Nat.le_trans hus hts)) fun body vs hvs => ?_
  have hskip := (skipLineEnds_suffix vs).length_le
  refine andThen_congr ?_ fun _ _ _ => rfl
  exact afterLineEnds_congr (alternativeAt_agrees hcode hfewer (by omega))

theorem arm_agrees : R.arm ts = r.armAt ts := by
  rw [← (hcode ts hts).arm, armAt_eq_unroll]
  have hkeyword := (tail_skipLineEnds_suffix ts).length_le
  refine congrArg (widen · (tail_skipLineEnds_suffix ts)) (andThen_congr rfl fun guard us hus => ?_)
  refine andThen_congr rfl fun _ vs hvs => ?_
  exact congrArg (map _) (block_agrees hcode hfewer (by omega))

theorem arms_agrees : R.arms ts = r.arms ts := by
  have hle := (skipLineEnds_suffix ts).length_le
  have hturn : R.armTurn (skipLineEnds ts) = r.readers.armTurn (skipLineEnds ts) :=
    congrArg (map _) (arm_agrees hcode hfewer (by omega))
  rw [← (hcode ts hts).arms, arms_eq_loop]
  exact loop_congr hturn r.armTurn_advances fun us hus => (hfewer us (by omega)).arms

theorem selection_agrees : R.selection ts = r.selection ts := by
  rw [← (hcode ts hts).selection, selection_eq_unroll]
  simp only [unroll]
  refine andThen_congr rfl fun subject us hus => andThen_congr rfl fun _ vs hvs => ?_
  exact andThen_congr (arms_agrees hcode hfewer (by omega)) fun _ _ _ => rfl

theorem procedureAt_agrees : R.procedureAt r ts = r.readers.procedureAt r ts := by
  cases ts with
  | nil => rfl
  | cons t us =>
    rw [List.length_cons] at hts
    rw [procedureAt, procedureAt]
    refine congrArg (widen · (List.suffix_cons t us)) ?_
    split_ifs
    · refine andThen_congr rfl fun name vs hvs => andThen_congr rfl fun _ ws hws => andThen_congr rfl fun _ xs hxs => ?_
      exact congrArg (map _) (braces_agrees hcode hfewer (by omega))
    · rfl

theorem procedure_agrees : R.procedure ts = r.procedure ts := by
  have hle := (skipLineEnds_suffix ts).length_le
  rw [← (hcode ts hts).procedure, procedure_eq_unroll]
  exact afterLineEnds_congr (procedureAt_agrees hcode hfewer (by omega))

theorem procedures_agrees : R.procedures ts = r.procedures ts := by
  have hle := (skipLineEnds_suffix ts).length_le
  have hturn : R.procedureTurn (skipLineEnds ts) = r.readers.procedureTurn (skipLineEnds ts) :=
    congrArg (map _) (procedure_agrees hcode hfewer (by omega))
  rw [← (hcode ts hts).procedures, procedures_eq_loop]
  exact loop_congr hturn r.procedureTurn_advances fun us hus => (hfewer us (by omega)).procedures

theorem agree_of_fewer : R.Agree r.readers ts where
  expression := expression_agrees hcode hfewer hts
  climb := climb_agrees hcode hfewer hts
  statement := statement_agrees hcode hfewer hts
  block := block_agrees hcode hfewer hts
  conditional := conditional_agrees hcode hfewer hts
  selection := selection_agrees hcode hfewer hts
  arm := arm_agrees hcode hfewer hts
  arms := arms_agrees hcode hfewer hts
  procedure := procedure_agrees hcode hfewer hts
  procedures := procedures_agrees hcode hfewer hts

end

/-- What is read off `n` tokens is determined by the code for lists of at most `n` tokens. -/
theorem agree_of_unroll (hcode : ∀ ts, ts.length ≤ n → (r.unroll R).Agree R ts) :
    ∀ ts, ts.length ≤ n → R.Agree r.readers ts := by
  induction n with
  | zero => exact fun ts hts => agree_of_fewer hcode (fun us hus => absurd hus (Nat.not_lt_zero _)) hts
  | succ n ih =>
    have hfewer := ih fun ts hts => hcode ts (by omega)
    exact fun ts hts => agree_of_fewer hcode (fun us hus => hfewer us (by omega)) hts

end Readers

/-! ## Positions -/

/-- The parts that are read off tokens. -/
inductive Part where
  | lineEnds
  | expected (text : String)
  | required (text : String)
  | identifier
  | terminator
  | optionalTerminator
  | primary
  | operand
  | expression (floor : Power)
  | assignment
  | branch
  | conditional
  | selection
  | arm
  | statement
  | block
  | packageClause
  | procedure
  | procedures

/-- The tokens that are left behind a part. -/
def Part.rest (r : Reader) (ts : List Token) : Part → List Token
  | lineEnds => skipLineEnds ts
  | expected text => (r.expect text ts).rest
  | required text => (r.consume text ts).rest
  | identifier => (r.identifier ts).rest
  | terminator => (r.terminator ts).rest
  | optionalTerminator => (skipTerminator ts).rest
  | primary => (r.primary ts).rest
  | operand => (r.operand ts).rest
  | expression floor => (r.expression floor ts).rest
  | assignment => (r.assignment ts).rest
  | branch => (r.branch ts).rest
  | conditional => (r.conditionalAt ts).rest
  | selection => (r.selectionAt ts).rest
  | arm => (r.armAt ts).rest
  | statement => (r.statement ts).rest
  | block => (r.block ts).rest
  | packageClause => (r.packageClause ts).rest
  | procedure => (r.procedure ts).rest
  | procedures => (r.procedures ts).rest

theorem Part.rest_suffix (r : Reader) (ts : List Token) (p : Part) : p.rest r ts <:+ ts := by
  cases p with
  | lineEnds => exact skipLineEnds_suffix ts
  | _ => exact Parsed.suffix _

/-- From position `i` on, a part is read up to a position that is no earlier and not past the end. -/
theorem Part.rest_drop (r : Reader) (p : Part) {ts : List Token} {i : Nat} (h : i ≤ ts.length) :
    ∃ j, i ≤ j ∧ j ≤ ts.length ∧ p.rest r (ts.drop i) = ts.drop j := by
  obtain ⟨taken, htaken⟩ := p.rest_suffix r (ts.drop i)
  have hlen := congrArg List.length htaken
  rw [List.length_append, List.length_drop] at hlen
  refine ⟨i + taken.length, Nat.le_add_right _ _, by omega, ?_⟩
  calc p.rest r (ts.drop i) = (taken ++ p.rest r (ts.drop i)).drop taken.length := List.drop_left.symm
    _ = ts.drop (i + taken.length) := by rw [htaken, List.drop_drop]

namespace Reader

/-- A block ends before what closes it, or at the end of the tokens. -/
theorem rest_block (r : Reader) (ts : List Token) : (r.block ts).rest = [] ∨
    ∃ t us, (r.block ts).rest = t :: us ∧ (t.text = closeBrace ∨ t.text = "case" ∨ t.text = "default") := by
  have hstops := Parsed.stops_rest r.block_eq_loop r.statementTurn_advances ts
  cases hrest : (r.block ts).rest with
  | nil => exact .inl rfl
  | cons t us =>
    rw [hrest] at hstops
    exact .inr ⟨t, us, rfl, by simpa [endsBlock, Token.closesBlock, or_assoc] using hstops⟩

/-- What keeps reading from getting stuck. -/
structure Progresses (r : Reader) : Prop where
  /-- Positions do not decrease, and they do not get past the end. -/
  forward : ∀ (p : Part) (ts : List Token) (i : Nat), i ≤ ts.length →
    ∃ j, i ≤ j ∧ j ≤ ts.length ∧ p.rest r (ts.drop i) = ts.drop j
  /-- Every turn of the loops takes a token. -/
  procedures : Advances List.isEmpty r.readers.procedureTurn
  statements : Advances endsBlock r.readers.statementTurn
  arms : Advances endsArms r.readers.armTurn
  operators : ∀ (floor : Power) (op : BinOp) (left : Expr) (ts : List Token), r.operator? floor ts = some op →
    (r.readers.operatorTurn r op left ts).rest.length < ts.length
  /-- The readers follow their code. -/
  code : r.unroll r.readers = r.readers
  /-- Any readers that follow the code on lists of at most `n` tokens read there what these read. -/
  determined : ∀ (R : Readers) (n : Nat), (∀ ts, ts.length ≤ n → (r.unroll R).Agree R ts) →
    ∀ ts, ts.length ≤ n → R.Agree r.readers ts
  block_end : ∀ ts, (r.block ts).rest = [] ∨
    ∃ t us, (r.block ts).rest = t :: us ∧ (t.text = closeBrace ∨ t.text = "case" ∨ t.text = "default")

/-- Whatever the tokens are, reading makes progress and comes to an end. A reading that is completed has the package
clause and the procedures of the tokens up to the last one. -/
theorem reading_progresses (r : Reader) : r.Progresses ∧
    ∀ ts, (Reading.ofTokens ts).completed = true → ∃ name clause body, clause = (standard ts).packageClause ts ∧
      clause.value = some name ∧ body = (standard ts).procedures clause.rest ∧ body.rest = [] ∧
      (Reading.ofTokens ts).program = ⟨some name, body.value, clause.faults ++ body.faults⟩ := by
  refine ⟨?_, fun ts hcompleted => ?_⟩
  · exact ⟨fun p ts i h => p.rest_drop r h, r.procedureTurn_advances, r.statementTurn_advances, r.armTurn_advances,
      fun floor op left ts h => r.operatorTurn_advances h left, r.unroll_readers,
      fun R n hcode => Readers.agree_of_unroll hcode, r.rest_block⟩
  · cases hclause : ((standard ts).packageClause ts).value with
    | none => simp [Reading.ofTokens, hclause] at hcompleted
    | some name =>
      refine ⟨name, _, _, rfl, hclause, rfl, rest_procedures _, ?_⟩
      simp [Reading.ofTokens, hclause]

end Reader

end AddressLines
