/-!
# Operators

The operators that join two operands, how strongly each of them binds, and the words that leave a block.
-/

namespace AddressLines

inductive BinOp where
  | add
  | sub
  | mul
  | div
  | rem
  | eq
  | ne
  | lt
  | le
  | gt
  | ge
  | and
  | or
deriving DecidableEq, Repr

namespace BinOp

def symbol : BinOp → String
  | add => "+"
  | sub => "-"
  | mul => "*"
  | div => "/"
  | rem => "%"
  | eq => "=="
  | ne => "!="
  | lt => "<"
  | le => "<="
  | gt => ">"
  | ge => ">="
  | and => "&&"
  | or => "||"

def all : List BinOp :=
  [add, sub, mul, div, rem, eq, ne, lt, le, gt, ge, and, or]

def ofSymbol? (s : String) : Option BinOp :=
  all.find? (·.symbol == s)

def isComparison : BinOp → Bool
  | eq | ne | lt | le | gt | ge => true
  | _ => false

theorem symbol_injective {o p : BinOp} (h : o.symbol = p.symbol) : o = p := by
  revert h; cases o <;> cases p <;> decide

theorem ofSymbol?_symbol (op : BinOp) : ofSymbol? op.symbol = some op := by
  cases op <;> decide

theorem symbol_of_ofSymbol? {s : String} {op : BinOp} (h : ofSymbol? s = some op) : op.symbol = s := by
  simpa using List.find?_some h

end BinOp

/-- How strongly an operator binds, from the weakest on. The lowest power is that of no operator at all. -/
inductive Power where
  | lowest
  | disjunction
  | conjunction
  | relation
  | sum
  | product
deriving DecidableEq, Repr

namespace Power

def rank : Power → Nat
  | lowest => 0
  | disjunction => 1
  | conjunction => 2
  | relation => 3
  | sum => 4
  | product => 5

instance : LT Power := ⟨fun p q => p.rank < q.rank⟩
instance : LE Power := ⟨fun p q => p.rank ≤ q.rank⟩
instance (p q : Power) : Decidable (p < q) := inferInstanceAs (Decidable (p.rank < q.rank))
instance (p q : Power) : Decidable (p ≤ q) := inferInstanceAs (Decidable (p.rank ≤ q.rank))

end Power

/-- The usual powers: products before sums before comparisons before `&&` before `||`. -/
def BinOp.power : BinOp → Power
  | mul | div | rem => .product
  | add | sub => .sum
  | eq | ne | lt | le | gt | ge => .relation
  | and => .conjunction
  | or => .disjunction

/-- A word that leaves the running block. -/
inductive Branch where
  | breaks
  | continues
  | returns
deriving DecidableEq, Repr

namespace Branch

def keyword : Branch → String
  | breaks => "break"
  | continues => "continue"
  | returns => "return"

def ofKeyword? (s : String) : Option Branch :=
  [breaks, continues, returns].find? (·.keyword == s)

end Branch

end AddressLines
