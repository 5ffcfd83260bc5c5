import AddressLines.Grammar.Stmt
import AddressLines.Proofs.Tree.Whole

/-!
# The tokens of a tree

What a tree is written with, from left to right, when line ends and semicolons are left out. Keywords, braces
and assignment signs are told by their texts alone; names, literals and operators also by their kinds.
A definition can be written in three ways, so this is a relation and not a function.
-/

namespace AddressLines

/-- A token of a given kind and text. -/
def Token.Is (kind : Token.Kind) (text : String) (t : Token) : Prop :=
  t.kind = kind ∧ t.text = text

/-- The tokens that are neither line ends nor semicolons. -/
def kept (ts : List Token) : List Token :=
  ts.filter fun t => !t.isTerminator

inductive Expr.Yields : Expr → List Token → Prop
  | name {t : Token} {x : String} : t.Is .identifier x → Yields (.name x) [t]
  | literal {t : Token} {l : Literal} :
    t.kind = .literal → Literal.ofText? t.text = some l → Yields (.literal l) [t]
  | unary {t : Token} {op : String} {e : Expr} {es : List Token} :
    t.Is .operator op → Yields e es → Yields (.unary op e) (t :: es)
  | binary {l r : Expr} {op : BinOp} {t : Token} {ls rs : List Token} :
    Yields l ls → t.Is .operator op.symbol → Yields r rs → Yields (.binary l op r) (ls ++ t :: rs)

mutual

inductive Stmt.Yields : Stmt → List Token → Prop
  | assign {x sign : Token} {target : String} {e : Expr} {es : List Token} :
    x.Is .identifier target → sign.text = "=" → e.Yields es →
      Stmt.Yields (.assign target false e) (x :: sign :: es)
  | define {x sign : Token} {target : String} {e : Expr} {es : List Token} :
    x.Is .identifier target → sign.text = ":=" → e.Yields es →
      Stmt.Yields (.assign target true e) (x :: sign :: es)
  | declare {var x sign : Token} {target : String} {e : Expr} {es : List Token} :
    var.text = "var" → x.Is .identifier target → sign.text = "=" ∨ sign.text = ":=" → e.Yields es →
      Stmt.Yields (.assign target true e) (var :: x :: sign :: es)
  | branch {t : Token} {b : Branch} : t.text = b.keyword → Stmt.Yields (.branch b) [t]
  | cond {t : Token} {c : Expr} {body : Block} {cs bs : List Token} :
    t.text = "if" → c.Yields cs → Block.Braced body bs →
      Stmt.Yields (.cond c body none) (t :: (cs ++ bs))
  | condElse {t other : Token} {c : Expr} {body alternative : Block} {cs bs as : List Token} :
    t.text = "if" → c.Yields cs → Block.Braced body bs →
      other.text = "else" → Block.Braced alternative as →
      Stmt.Yields (.cond c body (some alternative)) (t :: (cs ++ (bs ++ other :: as)))
  | tagless {t opening closing : Token} {arms : List (Arm Stmt)} {as : List Token} :
    t.text = "switch" → opening.text = openBrace → Arm.Yield arms as → closing.text = closeBrace →
      Stmt.Yields (.switch .absent arms) (t :: opening :: (as ++ [closing]))
  | tagged {t opening closing : Token} {e : Expr} {arms : List (Arm Stmt)} {es as : List Token} :
    t.text = "switch" → e.Yields es → opening.text = openBrace → Arm.Yield arms as →
      closing.text = closeBrace → Stmt.Yields (.switch e arms) (t :: (es ++ opening :: (as ++ [closing])))

inductive Block.Yields : Block → List Token → Prop
  | nil : Block.Yields [] []
  | cons {s : Stmt} {ss : Block} {ts us : List Token} :
    s.Yields ts → Block.Yields ss us → Block.Yields (s :: ss) (ts ++ us)

/-- A block with its braces. -/
inductive Block.Braced : Block → List Token → Prop
  | mk {opening closing : Token} {body : Block} {bs : List Token} :
    opening.text = openBrace → Block.Yields body bs → closing.text = closeBrace →
      Block.Braced body (opening :: (bs ++ [closing]))

inductive Arm.Yield : List (Arm Stmt) → List Token → Prop
  | nil : Arm.Yield [] []
  | guarded {t colon : Token} {guard : Expr} {body : Block} {arms : List (Arm Stmt)}
      {gs bs as : List Token} :
    t.text = "case" → guard.Yields gs → colon.text = ":" → Block.Yields body bs → Arm.Yield arms as →
      Arm.Yield (⟨guard, body⟩ :: arms) (t :: (gs ++ colon :: (bs ++ as)))
  | default {t colon : Token} {body : Block} {arms : List (Arm Stmt)} {bs as : List Token} :
    t.text = "default" → colon.text = ":" → Block.Yields body bs → Arm.Yield arms as →
      Arm.Yield (⟨.absent, body⟩ :: arms) (t :: colon :: (bs ++ as))

end

inductive Procedure.Yields : Procedure → List Token → Prop
  | mk {t name left right : Token} {x : String} {body : Block} {bs : List Token} :
    t.text = "func" → name.Is .identifier x → left.text = "(" → right.text = ")" →
      Block.Braced body bs → Yields ⟨x, body⟩ (t :: name :: left :: right :: bs)

inductive Procedure.Yield : List Procedure → List Token → Prop
  | nil : Yield [] []
  | cons {p : Procedure} {ps : List Procedure} {ts us : List Token} :
    p.Yields ts → Yield ps us → Yield (p :: ps) (ts ++ us)

/-- The package clause and the procedures of a program; its faults are not written anywhere. -/
inductive Program.Yields : Program → List Token → Prop
  | mk {t name : Token} {x : String} {ps : List Procedure} {faults : List Fault} {ts : List Token} :
    t.text = "package" → name.Is .identifier x → Procedure.Yield ps ts →
      Yields ⟨some x, ps, faults⟩ (t :: name :: ts)

/-! ## Nothing is absent in what has tokens -/

theorem Expr.Yields.isWhole {e : Expr} {es : List Token} (h : e.Yields es) : e.isWhole = true := by
  induction h with
  | name _ => rfl
  | literal _ _ => rfl
  | unary _ _ ih => exact ih
  | binary _ _ _ ihl ihr => simp only [Expr.isWhole, ihl, ihr, Bool.and_self]

theorem Expr.Yields.not_isAbsent {e : Expr} {es : List Token} (h : e.Yields es) : e.isAbsent = false := by
  cases h <;> rfl

mutual

theorem Stmt.Yields.isWhole : ∀ {s : Stmt} {ts : List Token}, s.Yields ts → s.isWhole = true
  | _, _, .assign _ _ he => he.isWhole
  | _, _, .define _ _ he => he.isWhole
  | _, _, .declare _ _ _ he => he.isWhole
  | _, _, .branch _ => rfl
  | _, _, .cond _ hc hb => by
    simp only [Stmt.isWhole, hc.isWhole, hb.isWhole, Bool.and_self]
  | _, _, .condElse _ hc hb _ ha => by
    simp only [Stmt.isWhole, hc.isWhole, hb.isWhole, ha.isWhole, Bool.and_self]
  | _, _, .tagless _ _ ha _ => by
    simp only [Stmt.isWhole, Expr.isAbsent, ha.areWhole, Bool.true_or, Bool.and_self]
  | _, _, .tagged _ he _ ha _ => by
    simp only [Stmt.isWhole, he.isWhole, ha.areWhole, Bool.or_true, Bool.and_self]

theorem Block.Yields.isWhole : ∀ {b : Block} {ts : List Token}, Block.Yields b ts → Block.isWhole b = true
  | _, _, .nil => rfl
  | _, _, .cons hs hss => by simp only [Block.isWhole, hs.isWhole, hss.isWhole, Bool.and_self]

theorem Block.Braced.isWhole : ∀ {b : Block} {ts : List Token}, Block.Braced b ts → Block.isWhole b = true
  | _, _, .mk _ hb _ => hb.isWhole

theorem Arm.Yield.areWhole : ∀ {arms : List (Arm Stmt)} {ts : List Token}, Arm.Yield arms ts →
    Arm.areWhole arms = true
  | _, _, .nil => rfl
  | _, _, .guarded _ hg _ hb ha => by
    simp only [Arm.areWhole, hg.isWhole, hb.isWhole, ha.areWhole, Bool.or_true, Bool.and_self]
  | _, _, .default _ _ hb ha => by
    simp only [Arm.areWhole, Expr.isAbsent, hb.isWhole, ha.areWhole, Bool.true_or, Bool.and_self]

end

theorem Procedure.Yield.areWhole {ps : List Procedure} {ts : List Token} (h : Procedure.Yield ps ts) :
    ∀ p ∈ ps, Block.isWhole p.body = true := by
  induction h with
  | nil => simp
  | cons hp _ ih =>
    obtain ⟨_, _, _, _, hb⟩ := hp
    simpa only [List.forall_mem_cons] using ⟨hb.isWhole, ih⟩

theorem Program.Yields.isWhole {p : Program} {ts : List Token} (h : p.Yields ts) : p.isWhole = true := by
  obtain ⟨_, _, hps⟩ := h
  exact List.all_eq_true.mpr hps.areWhole

end AddressLines
