import AddressLines.Fault
import AddressLines.Tree.Expr

/-!
# Statements and programs

A program is a package name and its procedures, each a block of statements.
-/

namespace AddressLines

/-- One arm of a switch. The default arm has no guard. -/
structure Arm (σ : Type) where
  guard : Expr
  body : List σ
deriving Repr

inductive Stmt where
  /-- Gives `target` a value, and makes it a new variable if it `defines` it. -/
  | assign (target : String) (defines : Bool) (value : Expr)
  | branch (word : Branch)
  | cond (condition : Expr) (body : List Stmt) (alternative : Option (List Stmt))
  | switch (subject : Expr) (arms : List (Arm Stmt))
deriving Repr

abbrev Block := List Stmt

/-- The sign between the target and the value of an assignment. -/
def Stmt.assignSign (defines : Bool) : String :=
  if defines then ":=" else "="

structure Procedure where
  name : String
  body : Block
deriving Repr

structure Program where
  package : Option String := none
  procedures : List Procedure := []
  /-- The faults met while the program was read. -/
  faults : List Fault := []
deriving Repr

end AddressLines
