import AddressLines.Code.Line

/-!
# Outlines

What the code of a program is meant to tell of it. The outline of a statement keeps its target, its word or its
parts, and of each expression only the text that is written for it. Gone are the sign of an assignment, an
`else` with nothing in it, and every switch: a switch with arms stands as its chain of conditionals (`chained`), one
without arms is dropped.

The steps that are written out have the same outline as the statements they come from (`outline_chained`).
-/

namespace AddressLines

/-- A statement with each expression given by its text. -/
inductive Outline where
  | assign (target : String) (isLiteral : Bool) (value : String)
  | branch (word : Branch)
  | choose (condition : String) (body : List Outline) (alternative : Option (List Outline))
deriving Repr

def Expr.isLiteral : Expr → Bool
  | literal _ => true
  | _ => false

/-! ## Statements -/

mutual

/-- The statement with a chain of conditionals for every switch that has arms. -/
def Stmt.chained : Stmt → Stmt
  | .assign x defines e => .assign x defines e
  | .branch word => .branch word
  | .cond c body none => .cond c (Block.chained body) none
  | .cond c body (some alternative) => .cond c (Block.chained body) (some (Block.chained alternative))
  | .switch e arms => (Stmt.chain? e (Arm.chained arms)).getD (.switch e [])

def Block.chained : Block → Block
  | [] => []
  | s :: ss => s.chained :: Block.chained ss

def Arm.chained : List (Arm Stmt) → List (Arm Stmt)
  | [] => []
  | ⟨guard, body⟩ :: arms => ⟨guard, Block.chained body⟩ :: Arm.chained arms

end

mutual

/-- The outline of a statement without arms in it. An `else` with nothing in it is none. -/
def Stmt.outline? : Stmt → Option Outline
  | .assign x _ e => some (.assign x e.isLiteral e.code)
  | .branch word => some (.branch word)
  | .cond c body none => some (.choose c.code (Block.outline body) none)
  | .cond c body (some alternative) =>
    some (.choose c.code (Block.outline body) (if alternative.isEmpty then none else some (Block.outline alternative)))
  | .switch _ _ => none

def Block.outline : Block → List Outline
  | [] => []
  | s :: ss => s.outline?.toList ++ Block.outline ss

end

/-- The name of a procedure and the outline of its body. -/
def Procedure.outline (q : Procedure) : String × List Outline :=
  (q.name, Block.outline (Block.chained q.body))

/-! ## Steps -/

mutual

def Step.outline : Step → Outline
  | .assign x e => .assign x e.isLiteral e.code
  | .branch word => .branch word
  | .choose c body none => .choose c.code (Step.outlines body) none
  | .choose c body (some alternative) =>
    .choose c.code (Step.outlines body) (some (Step.outlines alternative))

def Step.outlines : List Step → List Outline
  | [] => []
  | s :: ss => s.outline :: Step.outlines ss

end

@[simp] theorem Step.outline_assign (x : String) (e : Expr) :
    (Step.assign x e).outline = .assign x e.isLiteral e.code := rfl

@[simp] theorem Step.outline_branch (word : Branch) : (Step.branch word).outline = .branch word := rfl

@[simp] theorem Step.outline_choose (c : Expr) (body : List Step) (alternative : Option (List Step)) :
    (Step.choose c body alternative).outline = .choose c.code (outlines body) (alternative.map outlines) := by
  cases alternative <;> rfl

theorem Step.outlines_append (ss ts : List Step) : outlines (ss ++ ts) = outlines ss ++ outlines ts := by
  induction ss with
  | nil => rfl
  | cons s ss ih => simp [outlines, ih]

theorem Step.outlines_toList (o : Option Step) : outlines o.toList = (o.map outline).toList := by
  cases o <;> rfl

theorem Block.isEmpty_chained (b : Block) : (Block.chained b).isEmpty = b.isEmpty := by
  cases b <;> rfl

mutual

theorem outline?_chained : ∀ (s : Stmt), s.chained.outline? = s.step?.map Step.outline
  | .assign x defines e => rfl
  | .branch word => rfl
  | .cond c body none => by
    simp [Stmt.chained, Stmt.outline?, Stmt.step?, Step.outline, outline_chained body]
  | .cond c body (some alternative) => by
    simp only [Stmt.chained, Stmt.outline?, Stmt.step?, Option.map_some, Step.outline_choose, outline_chained body,
      outline_chained alternative, Block.isEmpty_chained]
    split <;> rfl
  | .switch e arms => by
    rw [Stmt.chained, Stmt.step?, outline?_chain? e arms]

theorem outline_chained : ∀ (b : Block), Block.outline (Block.chained b) = Step.outlines (steps b)
  | [] => rfl
  | s :: ss => by
    rw [Block.chained, Block.outline, outline?_chained s, outline_chained ss, steps, Step.outlines_append,
      Step.outlines_toList]

theorem outline?_chain? (e : Expr) : ∀ (arms : List (Arm Stmt)),
    ((Stmt.chain? e (Arm.chained arms)).getD (.switch e [])).outline? = (armStep? e arms).map Step.outline
  | [] => rfl
  | ⟨guard, body⟩ :: arms => by
    have hrest := outline?_chain? e arms
    -- The conditional that follows is the only statement of the alternative, if there is one.
    cases hchain : Stmt.chain? e (Arm.chained arms) with
    | none =>
      rw [hchain, Option.getD_none, Stmt.outline?, eq_comm, Option.map_eq_none_iff] at hrest
      simp [Arm.chained, Stmt.chain?, hchain, Stmt.outline?, armStep?, hrest, Step.outline, outline_chained body]
    | some s =>
      rw [hchain, Option.getD_some] at hrest
      obtain ⟨t, ht⟩ : ∃ t, armStep? e arms = some t := by
        cases arms with
        | nil => simp [Arm.chained, Stmt.chain?] at hchain
        | cons => exact ⟨_, rfl⟩
      rw [ht, Option.map_some] at hrest
      simp [Arm.chained, Stmt.chain?, hchain, Stmt.outline?, Block.outline, armStep?, ht, hrest, Step.outline,
        Step.outlines, outline_chained body]

end

end AddressLines
