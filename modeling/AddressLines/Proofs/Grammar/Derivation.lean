import AddressLines.Proofs.Grammar.Yield
import AddressLines.Proofs.Tree.NormalForm
import AddressLines.Token.Lexeme

/-!
# The written language

The layouts in which a program may be written. `x.Derives ts rest` says that `ts` is a way of writing `x` with
`rest` behind it; what stands behind matters in one place only, where a closing brace or the end of the tokens
ends an assignment. Tokens have the kinds that scanning gives them.

* a program: line ends, `package`, a name, its end, procedures, line ends;
* a procedure: `func`, a name, `(`, `)` and a block in braces, with line ends before each bracket;
* a block: statements, with line ends before each of them;
* an assignment: a name, perhaps behind `var`, line ends, a sign, a value, its end;
* a branch: its word, perhaps a terminator;
* a conditional: `if`, its condition, a block in braces, line ends, perhaps `else` and another block in braces,
  perhaps a terminator;
* a switch: `switch`, line ends, perhaps a subject, line ends, arms in braces, perhaps a terminator;
* an arm: `case` and its guard, or `default`, then line ends, a colon and a block.
-/

namespace AddressLines

namespace Token

/-- A name as it is scanned: a letter or an underscore, then letters, digits and underscores, and no keyword. -/
def isName (x : String) : Bool :=
  x.toList.head?.any isNameStart && x.toList.tail.all isNamePart && !keywords.contains x

/-- A token that spells a name. -/
def Names (x : String) (t : Token) : Prop :=
  t.Is .identifier x ∧ isName x = true

/-- Names and operators have the texts that are scanned as such. -/
def isScanned (t : Token) : Bool :=
  match t.kind with
  | .identifier => isName t.text
  | .operator => operators.contains t.text
  | _ => true

end Token

/-- A run of line ends, perhaps an empty one. -/
def LineEnds (ts rest : List Token) : Prop :=
  ∃ ends : List Token, (∀ t ∈ ends, t.isLineEnd = true) ∧ ts = ends ++ rest

theorem LineEnds.refl (ts : List Token) : LineEnds ts ts :=
  ⟨[], by simp, rfl⟩

theorem LineEnds.cons {t : Token} {ts rest : List Token} (ht : t.isLineEnd = true) (h : LineEnds ts rest) :
    LineEnds (t :: ts) rest := by
  obtain ⟨ends, hends, rfl⟩ := h
  exact ⟨t :: ends, List.forall_mem_cons.mpr ⟨ht, hends⟩, rfl⟩

/-- A terminator, or none before a closing brace and at the end of the tokens. -/
inductive Ends : List Token → List Token → Prop
  | terminator {t : Token} {rest : List Token} : t.isTerminator = true → Ends (t :: rest) rest
  | brace {t : Token} {rest : List Token} : t.Is .delimiter closeBrace → Ends (t :: rest) (t :: rest)
  | finish : Ends [] []

/-- A terminator that may be left out anywhere. -/
inductive MayEnd : List Token → List Token → Prop
  | terminator {t : Token} {rest : List Token} : t.isTerminator = true → MayEnd (t :: rest) rest
  | nothing {rest : List Token} : MayEnd rest rest

/-- The tokens of an expression in normal form, from left to right. -/
def Expr.Derives (e : Expr) (ts rest : List Token) : Prop :=
  ∃ es : List Token, ts = es ++ rest ∧ e.Yields es ∧ e.isNormal BinOp.power = true ∧
    ∀ t ∈ es, t.isScanned = true

mutual

inductive Stmt.Derives : Stmt → List Token → List Token → Prop
  | assign {x sign : Token} {target : String} {e : Expr} {ts us vs rest : List Token} :
    x.Names target → LineEnds ts (sign :: us) → sign.Is .operator "=" → e.Derives us vs → Ends vs rest →
      Stmt.Derives (.assign target false e) (x :: ts) rest
  | define {x sign : Token} {target : String} {e : Expr} {ts us vs rest : List Token} :
    x.Names target → LineEnds ts (sign :: us) → sign.Is .operator ":=" → e.Derives us vs → Ends vs rest →
      Stmt.Derives (.assign target true e) (x :: ts) rest
  | declare {var x sign : Token} {target : String} {e : Expr} {ts us vs rest : List Token} :
    var.Is .keyword "var" → x.Names target → LineEnds ts (sign :: us) →
      sign.Is .operator "=" ∨ sign.Is .operator ":=" → e.Derives us vs → Ends vs rest →
      Stmt.Derives (.assign target true e) (var :: x :: ts) rest
  | branch {t : Token} {b : Branch} {ts rest : List Token} :
    t.Is .keyword b.keyword → MayEnd ts rest → Stmt.Derives (.branch b) (t :: ts) rest
  | cond {t : Token} {c : Expr} {body : Block} {ts us vs ws rest : List Token} :
    t.Is .keyword "if" → c.Derives ts us → Block.DerivesBraced body us vs → LineEnds vs ws → MayEnd ws rest →
      Stmt.Derives (.cond c body none) (t :: ts) rest
  | condElse {t other : Token} {c : Expr} {body alternative : Block} {ts us vs ws xs rest : List Token} :
    t.Is .keyword "if" → c.Derives ts us → Block.DerivesBraced body us vs →
      LineEnds vs (other :: ws) → other.Is .keyword "else" → Block.DerivesBraced alternative ws xs →
      MayEnd xs rest → Stmt.Derives (.cond c body (some alternative)) (t :: ts) rest
  | tagless {t opening closing : Token} {arms : List (Arm Stmt)} {ts us vs ws rest : List Token} :
    t.Is .keyword "switch" → LineEnds ts (opening :: us) → opening.Is .delimiter openBrace →
      Arm.Derive arms us vs → LineEnds vs (closing :: ws) → closing.Is .delimiter closeBrace → MayEnd ws rest →
      Stmt.Derives (.switch .absent arms) (t :: ts) rest
  | tagged {t opening closing : Token} {e : Expr} {arms : List (Arm Stmt)}
      {ts us vs ws xs ys rest : List Token} :
    t.Is .keyword "switch" → LineEnds ts us → e.Derives us vs →
      LineEnds vs (opening :: ws) → opening.Is .delimiter openBrace →
      Arm.Derive arms ws xs → LineEnds xs (closing :: ys) → closing.Is .delimiter closeBrace → MayEnd ys rest →
      Stmt.Derives (.switch e arms) (t :: ts) rest

inductive Block.Derives : Block → List Token → List Token → Prop
  | nil {rest : List Token} : Block.Derives [] rest rest
  | cons {s : Stmt} {ss : Block} {ts us vs rest : List Token} :
    LineEnds ts us → s.Derives us vs → Block.Derives ss vs rest → Block.Derives (s :: ss) ts rest

/-- A block in braces, with line ends before each brace. -/
inductive Block.DerivesBraced : Block → List Token → List Token → Prop
  | mk {opening closing : Token} {body : Block} {ts us vs rest : List Token} :
    LineEnds ts (opening :: us) → opening.Is .delimiter openBrace → Block.Derives body us vs →
      LineEnds vs (closing :: rest) → closing.Is .delimiter closeBrace → Block.DerivesBraced body ts rest

inductive Arm.Derive : List (Arm Stmt) → List Token → List Token → Prop
  | nil {rest : List Token} : Arm.Derive [] rest rest
  | guarded {t colon : Token} {guard : Expr} {body : Block} {arms : List (Arm Stmt)}
      {ts us vs ws xs rest : List Token} :
    LineEnds ts (t :: us) → t.Is .keyword "case" → guard.Derives us vs →
      LineEnds vs (colon :: ws) → colon.Is .delimiter ":" → Block.Derives body ws xs →
      Arm.Derive arms xs rest → Arm.Derive (⟨guard, body⟩ :: arms) ts rest
  | default {t colon : Token} {body : Block} {arms : List (Arm Stmt)} {ts us vs ws rest : List Token} :
    LineEnds ts (t :: us) → t.Is .keyword "default" →
      LineEnds us (colon :: vs) → colon.Is .delimiter ":" → Block.Derives body vs ws →
      Arm.Derive arms ws rest → Arm.Derive (⟨.absent, body⟩ :: arms) ts rest

end

inductive Procedure.Derives : Procedure → List Token → List Token → Prop
  | mk {t name left right : Token} {x : String} {body : Block} {ts us vs rest : List Token} :
    t.Is .keyword "func" → name.Names x → LineEnds ts (left :: us) → left.Is .delimiter "(" →
      LineEnds us (right :: vs) → right.Is .delimiter ")" → Block.DerivesBraced body vs rest →
      Procedure.Derives ⟨x, body⟩ (t :: name :: ts) rest

/-- Procedures, with line ends before each of them. -/
inductive Procedure.Derive : List Procedure → List Token → List Token → Prop
  | nil {rest : List Token} : Procedure.Derive [] rest rest
  | cons {p : Procedure} {ps : List Procedure} {ts us vs rest : List Token} :
    LineEnds ts us → p.Derives us vs → Procedure.Derive ps vs rest → Procedure.Derive (p :: ps) ts rest

/-- A whole list of tokens as a program: the name of its package, and its procedures. -/
inductive Program.Derives : String → List Procedure → List Token → Prop
  | mk {t name : Token} {x : String} {ps : List Procedure} {ts us vs ws : List Token} :
    LineEnds ts (t :: name :: us) → t.Is .keyword "package" → name.Names x → Ends us vs →
      Procedure.Derive ps vs ws → LineEnds ws [] → Program.Derives x ps ts

end AddressLines
