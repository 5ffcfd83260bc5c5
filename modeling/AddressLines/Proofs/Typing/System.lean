import AddressLines.Tree.Stmt
import AddressLines.Typing.Ty

/-!
# The type system

When a program is well typed, said without a checker. A place in a procedure is given by what stands before it: the
preceding statements of each enclosing block, the innermost block first. A variable has the type of the value it is
defined with, and that value is typed at its own place; no types are carried along.
-/

namespace AddressLines

/-- The preceding statements of each enclosing block, the innermost first. -/
abbrev Place := List Block

/-- The name a statement defines. -/
def Stmt.defined? : Stmt → Option String
  | .assign x true _ => some x
  | _ => none

/-- The names defined directly in a block, in order. -/
def Block.defined (b : Block) : List String :=
  b.filterMap Stmt.defined?

def BinOp.Compares (op : BinOp) : Prop :=
  op ∈ [eq, ne, lt, le, gt, ge]

def Ty.IsNumber (τ : Ty) : Prop :=
  τ = .integer ∨ τ = .float

/-- Operands that go together: equal types, or two kinds of number. -/
def Ty.Matches (σ τ : Ty) : Prop :=
  σ = τ ∨ (σ.IsNumber ∧ τ.IsNumber)

inductive Expr.HasType : Place → Expr → Ty → Prop
  | integer {Γ : Place} {n : Int} : HasType Γ (.literal (.integer n)) .integer
  | float {Γ : Place} {r : Binary64} : HasType Γ (.literal (.float r)) .float
  | string {Γ : Place} {text : String} : HasType Γ (.literal (.string text)) .string
  | boolean {Γ : Place} {value : Bool} : HasType Γ (.literal (.boolean value)) .boolean
  /-- The innermost block defines the name. -/
  | here {Γ : Place} {b before after : Block} {x : String} {e : Expr} {τ : Ty} :
    b = before ++ .assign x true e :: after → HasType (before :: Γ) e τ → HasType (b :: Γ) (.name x) τ
  /-- The innermost block does not define the name, an outer one does. -/
  | outer {Γ : Place} {b : Block} {x : String} {τ : Ty} :
    x ∉ Block.defined b → HasType Γ (.name x) τ → HasType (b :: Γ) (.name x) τ
  | unary {Γ : Place} {op : String} {e : Expr} {τ : Ty} : HasType Γ e τ → HasType Γ (.unary op e) τ
  | comparison {Γ : Place} {l r : Expr} {op : BinOp} {σ τ : Ty} :
    op.Compares → HasType Γ l σ → HasType Γ r τ → σ.Matches τ → HasType Γ (.binary l op r) .boolean
  | same {Γ : Place} {l r : Expr} {op : BinOp} {τ : Ty} :
    ¬ op.Compares → HasType Γ l τ → HasType Γ r τ → HasType Γ (.binary l op r) τ
  | mixed {Γ : Place} {l r : Expr} {op : BinOp} {σ τ : Ty} :
    ¬ op.Compares → HasType Γ l σ → HasType Γ r τ → σ ≠ τ → σ.Matches τ →
      HasType Γ (.binary l op r) .float

/-- A guard fits the subject of its switch, and is a truth value where the switch has none. -/
def Expr.Fits (Γ : Place) (guard : Expr) : Option Ty → Prop
  | none => guard.HasType Γ .boolean
  | some σ => ∃ τ, guard.HasType Γ τ ∧ σ.Matches τ

mutual

inductive Stmt.WellTyped : Place → Stmt → Prop
  | define {Γ : Place} {x : String} {e : Expr} {τ : Ty} :
    e.HasType Γ τ → Stmt.WellTyped Γ (.assign x true e)
  | assign {Γ : Place} {x : String} {e : Expr} {τ : Ty} :
    (Expr.name x).HasType Γ τ → e.HasType Γ τ → Stmt.WellTyped Γ (.assign x false e)
  | branch {Γ : Place} {word : Branch} : Stmt.WellTyped Γ (.branch word)
  | cond {Γ : Place} {c : Expr} {body : Block} :
    c.HasType Γ .boolean → Block.WellTyped Γ body → Stmt.WellTyped Γ (.cond c body none)
  | condElse {Γ : Place} {c : Expr} {body alternative : Block} :
    c.HasType Γ .boolean → Block.WellTyped Γ body → Block.WellTyped Γ alternative →
      Stmt.WellTyped Γ (.cond c body (some alternative))
  | tagless {Γ : Place} {arms : List (Arm Stmt)} :
    (∀ arm ∈ arms, arm.guard = .absent ∨ arm.guard.Fits Γ none) →
      (∀ arm ∈ arms, Block.WellTyped Γ arm.body) → Stmt.WellTyped Γ (.switch .absent arms)
  | tagged {Γ : Place} {e : Expr} {σ : Ty} {arms : List (Arm Stmt)} :
    e.HasType Γ σ → (∀ arm ∈ arms, arm.guard = .absent ∨ arm.guard.Fits Γ (some σ)) →
      (∀ arm ∈ arms, Block.WellTyped Γ arm.body) → Stmt.WellTyped Γ (.switch e arms)

/-- No name is defined twice in the block, and each statement is well typed behind those before it. -/
inductive Block.WellTyped : Place → Block → Prop
  | mk {Γ : Place} {b : Block} :
    (Block.defined b).Nodup → (∀ before s after, b = before ++ s :: after → s.WellTyped (before :: Γ)) →
      Block.WellTyped Γ b

end

/-- The body of every procedure is well typed; nothing stands before it. -/
def Program.WellTyped (p : Program) : Prop :=
  ∀ q ∈ p.procedures, Block.WellTyped [] q.body

end AddressLines
