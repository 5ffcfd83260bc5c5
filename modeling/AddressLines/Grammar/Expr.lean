import AddressLines.Grammar.Parsed
import AddressLines.Tree.Expr

/-!
# Reading expressions

An expression is read as a flat run first: an operand, then links, each an operator with the operand after
it, as long as the operators bind strongly enough. The tree is then built link by link: a new link goes
down the right edge of the tree past every operator that binds more weakly than its own. That gives
the one tree in which a right operand binds more strongly than its operator and a left operand at least as
strongly.
-/

namespace AddressLines

/-- Hangs an operator and its right operand into a tree. -/
def Expr.graft (power : BinOp → Power) : Expr → BinOp → Expr → Expr
  | .binary l o r, op, right =>
    if power o < power op then .binary l o (r.graft power op right)
    else .binary (.binary l o r) op right
  | e, op, right => .binary e op right

/-- The tree of a flat run. -/
def Expr.ofLinks (power : BinOp → Power) (first : Expr) (links : List (BinOp × Expr)) : Expr :=
  links.foldl (fun e link => e.graft power link.1 link.2) first

/-- The operator of a token, if it is one that joins two operands. -/
def Token.binOp? (t : Token) : Option BinOp :=
  if t.kind = .operator then BinOp.ofSymbol? t.text else none

def Token.literal (t : Token) : Except Fault Literal :=
  match Literal.ofText? t.text with
  | some l => .ok l
  | none => .error ⟨.badLiteral t.text, some t.start⟩

theorem Token.literal_of_some {t : Token} {l : Literal} (h : Literal.ofText? t.text = some l) : t.literal = .ok l := by
  unfold Token.literal
  rw [h]

theorem Token.literal_of_none {t : Token} (h : Literal.ofText? t.text = none) :
    t.literal = .error ⟨.badLiteral t.text, some t.start⟩ := by
  unfold Token.literal
  rw [h]

namespace Reader

/-- A name or a literal; nothing is taken if neither stands here. -/
def primary (r : Reader) : (ts : List Token) → Parsed (Except Fault Expr) ts
  | [] => .pure (.error (r.unexpected "Expression" []))
  | t :: us =>
    if t.kind = .identifier then ⟨.ok (.name t.text), us, [], List.suffix_cons t us⟩
    else if t.kind = .literal then ⟨t.literal.map .literal, us, [], List.suffix_cons t us⟩
    else .pure (.error (r.unexpected "Expression" (t :: us)))

/-- An operand with the operators before it, each of them unary here. -/
def operand (r : Reader) : (ts : List Token) → Parsed Expr ts
  | [] => (r.primary []).recover .absent
  | t :: us =>
    if t.kind = .operator then
      ((r.operand us).map fun e => if e.isAbsent then .absent else .unary t.text e).widen
        (List.suffix_cons t us)
    else (r.primary (t :: us)).recover .absent

/-- Operators stronger than `floor`, each with the operand after it. -/
def links (r : Reader) (floor : Power) (ts : List Token) : Parsed (List (BinOp × Expr)) ts :=
  match ts with
  | [] => .pure []
  | t :: us =>
    match t.binOp? with
    | none => .pure []
    | some op =>
      if floor < r.grammar.power op then
        ((r.operand us).andThen fun e vs _ =>
          (r.links floor vs).map fun more => (op, e) :: more).widen (List.suffix_cons t us)
      else .pure []
termination_by ts.length
decreasing_by simp only [List.length_cons]; omega

def expression (r : Reader) (floor : Power) (ts : List Token) : Parsed Expr ts :=
  (r.operand ts).andThen fun first us _ =>
    (r.links floor us).map fun more => Expr.ofLinks r.grammar.power first more

end Reader

end AddressLines
