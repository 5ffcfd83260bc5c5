import AddressLines.Number.Numeral
import AddressLines.Number.Written
import AddressLines.Tree.Operator

/-!
# Expressions

Literals, names, and operators on them. There are no brackets: how an expression groups is told by the
powers of its operators alone.
-/

namespace AddressLines

inductive Literal where
  | integer (value : Int)
  | float (value : Binary64)
  | string (text : String)
  | boolean (value : Bool)
deriving DecidableEq, Repr

namespace Literal

def kindName : Literal → String
  | integer _ => "Integer"
  | float _ => "Float"
  | string _ => "String"
  | boolean _ => "Boolean"

/-- The value as text, a string without its quotes. -/
def value : Literal → String
  | integer n => toString n
  | float x => x.text
  | string s => s
  | boolean b => if b then "true" else "false"

/-- What stands between the first and the last character. -/
def inside (cs : List Char) : List Char :=
  cs.tail.dropLast

/-- A literal from its text: a number if the text can be read as one, else a truth value, else a text
between two quotes. -/
def ofText? (text : String) : Option Literal :=
  let cs := text.toList
  match Numeral.integer? cs with
  | some n => some (integer n)
  | none =>
    if text = "true" then some (boolean true)
    else if text = "false" then some (boolean false)
    else
      match Numeral.float? cs with
      | some x => some (float x)
      | none => if 1 < cs.length then some (string (String.ofList (inside cs))) else none

end Literal

inductive Expr where
  /-- Nothing where an expression could stand. -/
  | absent
  | name (x : String)
  | literal (l : Literal)
  | unary (operator : String) (operand : Expr)
  | binary (left : Expr) (op : BinOp) (right : Expr)
deriving DecidableEq, Repr

namespace Expr

def isAbsent : Expr → Bool
  | absent => true
  | _ => false

end Expr

end AddressLines
