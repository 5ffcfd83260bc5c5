import AddressLines.Grammar.Expr
import AddressLines.Tree.Stmt

/-!
# Reading statements

Statements are read until a block closes. What cannot open a statement is reported and skipped one token
at a time. Line ends before a statement or a brace do not matter.
-/

namespace AddressLines

/-- A statement by its first token. -/
inductive Form where
  | assignment (target : String)
  | opening (o : Opening)
deriving DecidableEq, Repr

/-- The statement a token opens: a name opens an assignment to it, a keyword what the grammar says. -/
def Grammar.form? (g : Grammar) (t : Token) : Option Form :=
  match t.kind with
  | .identifier =>
    if t.text = "var" then some (.opening .declaration) else some (.assignment t.text)
  | .keyword => (g.opening t.text).map .opening
  | _ => none

/-- A block ends before a closing brace and before the next arm of a switch. -/
def Token.closesBlock (t : Token) : Bool :=
  t.text == closeBrace || t.text == "case" || t.text == "default"

namespace Reader

/-- The value of an assignment and its terminator. -/
def assignedValue (r : Reader) (target : String) (defines : Bool) (ts : List Token) : Parsed Stmt ts :=
  (r.expression .lowest ts).andThen fun e us _ =>
    ((r.terminator us).recover ()).map fun _ => .assign target defines e

/-- An assignment from its sign on. Without a sign nothing is taken but line ends, and the statement has
no value. -/
def assignmentTo (r : Reader) (target : String) (declared : Bool) (ts : List Token) : Parsed Stmt ts :=
  let us := skipLineEnds ts
  if nextIs ":=" ts then
    (r.assignedValue target true us.tail).widen (tail_skipLineEnds_suffix ts)
  else if nextIs "=" ts then
    (r.assignedValue target declared us.tail).widen (tail_skipLineEnds_suffix ts)
  else
    ⟨.assign target false .absent, us, [r.unexpected "':=' or '='" us], skipLineEnds_suffix ts⟩

/-- An assignment from its target on. A target that is missing has the empty name. -/
def assignmentOf (r : Reader) (declared : Bool) (ts : List Token) : Parsed Stmt ts :=
  ((r.identifier ts).recover "").andThen fun target us _ => r.assignmentTo target declared us

/-- An assignment, with or without `var`. -/
def assignment (r : Reader) (ts : List Token) : Parsed Stmt ts :=
  let us := skipLineEnds ts
  if nextIs "var" ts then
    (r.assignmentOf true us.tail).widen (tail_skipLineEnds_suffix ts)
  else (r.assignmentOf false us).widen (skipLineEnds_suffix ts)

def branchWords : String :=
  "'break', 'continue' or 'return'"

/-- A branch, whatever the first token is. -/
def branch (r : Reader) (ts : List Token) : Parsed (Except Fault Stmt) ts :=
  match ts.head?.bind fun t => Branch.ofKeyword? t.text with
  | some b => ((skipTerminator ts.tail).map fun _ => .ok (.branch b)).widen (List.tail_suffix ts)
  | none => ⟨.error (r.unexpected branchWords ts), ts.tail, [], List.tail_suffix ts⟩

mutual

/-- Statements up to the end of their block. -/
def block (r : Reader) (ts : List Token) : Parsed Block ts :=
  match ts with
  | [] => .pure []
  | t :: us =>
    if t.isLineEnd then (r.block us).widen (List.suffix_cons t us)
    else if t.closesBlock then .pure []
    else
      match r.grammar.form? t with
      | none =>
        ((r.block us).report (r.unexpected "Statement" (t :: us))).widen (List.suffix_cons t us)
      | some form =>
        ((r.statementOf form us).andThen fun s vs _ =>
          (r.block vs).map fun ss => s :: ss).widen (List.suffix_cons t us)
termination_by 8 * ts.length

/-- A statement of a given form, from its second token on. -/
def statementOf (r : Reader) (form : Form) (ts : List Token) : Parsed Stmt ts :=
  match form with
  | .assignment target => r.assignmentTo target false ts
  | .opening .declaration => r.assignmentOf true ts
  | .opening .conditional => r.conditional ts
  | .opening .selection => r.selection ts
  | .opening (.branch b) => (skipTerminator ts).map fun _ => .branch b
termination_by 8 * ts.length + 5

/-- A block with its braces. -/
def braces (r : Reader) (ts : List Token) : Parsed Block ts :=
  (r.consume openBrace ts).andThen fun _ us _ =>
    (r.block us).andThen fun body vs _ =>
      (r.consume closeBrace vs).map fun _ => body
termination_by 8 * ts.length + 1

/-- A conditional from its condition on. Line ends are skipped in search of an `else`, which need not
come. -/
def conditional (r : Reader) (ts : List Token) : Parsed Stmt ts :=
  (r.expression .lowest ts).andThen fun condition us _ =>
    (r.braces us).andThen fun body vs _ =>
      (r.alternative vs).andThen fun alternative ws _ =>
        (skipTerminator ws).map fun _ => .cond condition body alternative
termination_by 8 * ts.length + 4

/-- The `else` part of a conditional. -/
def alternative (r : Reader) (ts : List Token) : Parsed (Option Block) ts :=
  match ts with
  | [] => .pure none
  | t :: us =>
    if t.isLineEnd then (r.alternative us).widen (List.suffix_cons t us)
    else if t.text = "else" then ((r.braces us).map some).widen (List.suffix_cons t us)
    else .pure none
termination_by 8 * ts.length + 2

/-- A switch from its subject on; a switch whose brace follows at once has no subject. -/
def selection (r : Reader) (ts : List Token) : Parsed Stmt ts :=
  (if nextIs openBrace ts then ⟨.absent, skipLineEnds ts, [], skipLineEnds_suffix ts⟩
    else (r.expression .lowest (skipLineEnds ts)).widen (skipLineEnds_suffix ts)).andThen
  fun subject us _ =>
    (r.consume openBrace us).andThen fun _ vs _ =>
      (r.arms vs).andThen fun arms ws _ =>
        (r.consume closeBrace ws).andThen fun _ xs _ =>
          (skipTerminator xs).map fun _ => .switch subject arms
termination_by 8 * ts.length + 4

/-- Arms as long as `case` or `default` follows. -/
def arms (r : Reader) (ts : List Token) : Parsed (List (Arm Stmt)) ts :=
  match ts with
  | [] => .pure []
  | t :: us =>
    if t.isLineEnd then (r.arms us).widen (List.suffix_cons t us)
    else if t.text = "case" ∨ t.text = "default" then
      ((r.armOf (t.text == "case") us).andThen fun arm vs _ =>
        (r.arms vs).map fun more => arm :: more).widen (List.suffix_cons t us)
    else .pure []
termination_by 8 * ts.length + 3

/-- An arm behind its keyword, `case` if it is `guarded`. -/
def armOf (r : Reader) (guarded : Bool) (ts : List Token) : Parsed (Arm Stmt) ts :=
  (if guarded then r.expression .lowest ts else .pure .absent).andThen fun guard us _ =>
    (r.consume ":" us).andThen fun _ vs _ =>
      (r.block vs).map fun body => ⟨guard, body⟩
termination_by 8 * ts.length + 1

end

/-! ## Statements with their first token -/

/-- A statement of the form that its first token tells; a token that opens none is left. -/
def statement (r : Reader) : (ts : List Token) → Parsed (Except Fault Stmt) ts
  | [] => .pure (.error (r.unexpected "Statement" []))
  | t :: us =>
    if t.isLineEnd then (r.statement us).widen (List.suffix_cons t us)
    else
      match r.grammar.form? t with
      | none => .pure (.error (r.unexpected "Statement" (t :: us)))
      | some form => ((r.statementOf form us).map .ok).widen (List.suffix_cons t us)

/-- A conditional, whatever its first token is. -/
def conditionalAt (r : Reader) (ts : List Token) : Parsed Stmt ts :=
  (r.conditional ts.tail).widen (List.tail_suffix ts)

/-- A switch, whatever its first token is. -/
def selectionAt (r : Reader) (ts : List Token) : Parsed Stmt ts :=
  (r.selection ts.tail).widen (List.tail_suffix ts)

/-- An arm of a switch: guarded behind `case`, unguarded behind anything else. -/
def armAt (r : Reader) (ts : List Token) : Parsed (Arm Stmt) ts :=
  (r.armOf (nextIs "case" ts) (skipLineEnds ts).tail).widen (tail_skipLineEnds_suffix ts)

end Reader

end AddressLines
