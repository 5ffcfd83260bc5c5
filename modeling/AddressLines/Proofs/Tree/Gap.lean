import AddressLines.Code.Line

/-!
# Gaps

A program with one statement missing, at any depth. A gap stands in a block, and the block may be the body or the
alternative of a conditional or the body of an arm, one layer further in each time. Statements that become the same
step can be put into a gap for one another without a change in the code.
-/

namespace AddressLines

/-- A statement with one of its blocks missing. -/
inductive Layer where
  | inBody (condition : Expr) (alternative : Option Block)
  | inAlternative (condition : Expr) (body : Block)
  | inArm (subject : Expr) (before : List (Arm Stmt)) (guard : Expr) (after : List (Arm Stmt))
deriving Repr

/-- A block with one statement missing, in the block itself or in a block inside it. -/
inductive Gap where
  | here (before after : Block)
  | inside (before : Block) (layer : Layer) (inner : Gap) (after : Block)
deriving Repr

/-- A program with one statement missing. -/
structure Program.Gap where
  package : Option String := none
  faults : List Fault := []
  before : List Procedure := []
  name : String
  body : AddressLines.Gap
  after : List Procedure := []
deriving Repr

def Layer.fill (b : Block) : Layer → Stmt
  | .inBody c alternative => .cond c b alternative
  | .inAlternative c body => .cond c body (some b)
  | .inArm subject before guard after => .switch subject (before ++ ⟨guard, b⟩ :: after)

def Gap.fill (s : Stmt) : Gap → Block
  | .here before after => before ++ s :: after
  | .inside before layer inner after => before ++ layer.fill (inner.fill s) :: after

def Program.Gap.fill (g : Program.Gap) (s : Stmt) : Program :=
  { package := g.package, procedures := g.before ++ ⟨g.name, g.body.fill s⟩ :: g.after, faults := g.faults }

/-! ## Steps -/

variable {b b' : Block} {s t : Stmt}

theorem armStep?_congr {guard subject : Expr} {after : List (Arm Stmt)} (h : steps b = steps b')
    (before : List (Arm Stmt)) :
    armStep? subject (before ++ ⟨guard, b⟩ :: after) = armStep? subject (before ++ ⟨guard, b'⟩ :: after) := by
  induction before with
  | nil => simp only [List.nil_append, armStep?, h]
  | cons arm before ih => simp only [List.cons_append, armStep?, ih]

theorem Layer.step?_fill (layer : Layer) (h : steps b = steps b') (hempty : b.isEmpty = b'.isEmpty) :
    (layer.fill b).step? = (layer.fill b').step? := by
  match layer with
  | .inBody c none => simp only [fill, Stmt.step?, h]
  | .inBody c (some alternative) => simp only [fill, Stmt.step?, h]
  | .inAlternative c body => simp only [fill, Stmt.step?, h, hempty]
  | .inArm subject before guard after => simp only [fill, Stmt.step?, armStep?_congr h before]

theorem steps_congr (before after : Block) (h : s.step? = t.step?) :
    steps (before ++ s :: after) = steps (before ++ t :: after) := by
  induction before with
  | nil => simp only [List.nil_append, steps, h]
  | cons u before ih => simp only [List.cons_append, steps, ih]

theorem Gap.isEmpty_fill (g : Gap) (s : Stmt) : (g.fill s).isEmpty = false := by
  cases g <;> simp [fill]

theorem Gap.steps_fill (g : Gap) (h : s.step? = t.step?) : steps (g.fill s) = steps (g.fill t) := by
  induction g with
  | here before after => exact steps_congr before after h
  | inside before layer inner after ih =>
    exact steps_congr before after (layer.step?_fill ih (by rw [isEmpty_fill, isEmpty_fill]))

theorem procedureLines_congr {x : String} {a : Address} {after : List Procedure} (h : steps b = steps b')
    (before : List Procedure) :
    procedureLines a (before ++ ⟨x, b⟩ :: after) = procedureLines a (before ++ ⟨x, b'⟩ :: after) := by
  induction before generalizing a with
  | nil => simp only [List.nil_append, procedureLines, Procedure.lines, h]
  | cons q before ih => simp only [List.cons_append, procedureLines, ih]

theorem Program.Gap.code_fill (g : Program.Gap) (h : s.step? = t.step?) : (g.fill s).code = (g.fill t).code := by
  have hlines : (g.fill s).lines = (g.fill t).lines := procedureLines_congr (g.body.steps_fill h) g.before
  rw [code, code, hlines]
  rfl

/-! ## Chains -/

/-- A switch with arms and its chain of conditionals become the same step. -/
theorem Stmt.step?_of_chain? {subject : Expr} {arms : List (Arm Stmt)} (h : Stmt.chain? subject arms = some s) :
    s.step? = armStep? subject arms := by
  induction arms generalizing s with
  | nil => simp [chain?] at h
  | cons arm arms ih =>
    obtain ⟨guard, body⟩ := arm
    obtain rfl : Stmt.cond (subject.armCondition guard) body ((chain? subject arms).map ([·])) = s := Option.some.inj h
    cases arms with
    | nil => rfl
    | cons next arms =>
      obtain ⟨t, ht⟩ : ∃ t, chain? subject (next :: arms) = some t := ⟨_, rfl⟩
      obtain ⟨u, hu⟩ : ∃ u, armStep? subject (next :: arms) = some u := ⟨_, rfl⟩
      have hstep : t.step? = some u := (ih ht).trans hu
      rw [armStep?, ht, hu]
      simp [Stmt.step?, steps, hstep]

end AddressLines
