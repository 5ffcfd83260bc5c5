import AddressLines.Tree.Expr

/-!
# Types

The types of values. An expression whose type cannot be told is `undefined`.
-/

namespace AddressLines

inductive Ty where
  | undefined
  | integer
  | float
  | string
  | boolean
deriving DecidableEq, Repr

namespace Ty

def name : Ty → String
  | undefined => "Undefined"
  | integer => "Integer"
  | float => "Float"
  | string => "String"
  | boolean => "Boolean"

def isNumeric : Ty → Bool
  | integer | float => true
  | _ => false

/-- Whether two operands may stand beside one operator: their types are equal, or both are numbers. -/
def agrees (left right : Ty) : Bool :=
  left == right || (left.isNumeric && right.isNumeric)

/-- The type of an operation on operands that agree: a comparison is a truth value, and otherwise two
different kinds of number make a float. -/
def ofOperation (op : BinOp) (left right : Ty) : Ty :=
  if op.isComparison then .boolean else if left = right then left else .float

end Ty

def Literal.ty : Literal → Ty
  | integer _ => .integer
  | float _ => .float
  | string _ => .string
  | boolean _ => .boolean

end AddressLines
