import AddressLines.Tree.Dump

/-!
# Trees that are alike

Two trees are alike when they are equal but for float literals, and where two such literals differ they are written
with the same text. A dump shows no more of a float than its text, so alike trees have the same dump (`dump_eq`).
-/

namespace AddressLines

/-! ## Literals -/

/-- The same literal, or two floats with the same text. -/
inductive Literal.Alike : Literal → Literal → Prop where
  | refl (l : Literal) : Literal.Alike l l
  | float {x y : Binary64} (h : x.text = y.text) : Literal.Alike (.float x) (.float y)

theorem Literal.Alike.value_eq {l m : Literal} (h : l.Alike m) : l.kindName = m.kindName ∧ l.value = m.value := by
  cases h with
  | refl => exact ⟨rfl, rfl⟩
  | float h => exact ⟨rfl, h⟩

/-! ## Expressions and statements -/

inductive Expr.Alike : Expr → Expr → Prop where
  | absent : Expr.Alike .absent .absent
  | name (x : String) : Expr.Alike (.name x) (.name x)
  | literal {l m : Literal} (h : l.Alike m) : Expr.Alike (.literal l) (.literal m)
  | unary (op : String) {e f : Expr} (h : e.Alike f) : Expr.Alike (.unary op e) (.unary op f)
  | binary (op : BinOp) {l l' r r' : Expr} (hl : l.Alike l') (hr : r.Alike r') :
    Expr.Alike (.binary l op r) (.binary l' op r')

mutual

inductive Stmt.Alike : Stmt → Stmt → Prop where
  | assign (x : String) (defines : Bool) {e f : Expr} (h : e.Alike f) :
    Stmt.Alike (.assign x defines e) (.assign x defines f)
  | branch (word : Branch) : Stmt.Alike (.branch word) (.branch word)
  | cond {c c' : Expr} {body body' : Block} {alternative alternative' : Option Block} (hc : c.Alike c')
    (hbody : Block.Alike body body') (halternative : Block.OptionAlike alternative alternative') :
    Stmt.Alike (.cond c body alternative) (.cond c' body' alternative')
  | switch {e f : Expr} {arms arms' : List (Arm Stmt)} (h : e.Alike f) (harms : Arm.Alike arms arms') :
    Stmt.Alike (.switch e arms) (.switch f arms')

inductive Block.Alike : Block → Block → Prop where
  | nil : Block.Alike [] []
  | cons {s t : Stmt} {ss ts : Block} (h : s.Alike t) (htail : Block.Alike ss ts) : Block.Alike (s :: ss) (t :: ts)

inductive Block.OptionAlike : Option Block → Option Block → Prop where
  | none : Block.OptionAlike none none
  | some {b b' : Block} (h : Block.Alike b b') : Block.OptionAlike (some b) (some b')

inductive Arm.Alike : List (Arm Stmt) → List (Arm Stmt) → Prop where
  | nil : Arm.Alike [] []
  | cons {guard guard' : Expr} {body body' : Block} {arms arms' : List (Arm Stmt)} (hguard : guard.Alike guard')
    (hbody : Block.Alike body body') (htail : Arm.Alike arms arms') :
    Arm.Alike (⟨guard, body⟩ :: arms) (⟨guard', body'⟩ :: arms')

end

structure Procedure.Alike (p q : Procedure) : Prop where
  name : p.name = q.name
  body : Block.Alike p.body q.body

/-! ## Dumps of alike trees -/

theorem Literal.Alike.dump_eq {l m : Literal} (h : l.Alike m) : l.dump = m.dump := by
  obtain ⟨hkind, hvalue⟩ := h.value_eq
  unfold Literal.dump
  rw [hkind, hvalue]

theorem Expr.Alike.dump_eq {e f : Expr} (h : e.Alike f) : e.dump = f.dump := by
  induction h with
  | absent => rfl
  | name x => rfl
  | literal h => exact h.dump_eq
  | unary op _ ih =>
    unfold Expr.dump
    rw [ih]
  | binary op _ _ ihl ihr =>
    unfold Expr.dump
    rw [ihl, ihr]

/-- What stands behind the heading of an alternative. -/
def dumpAlternative : Option Block → String
  | none => ""
  | some b => dumpHead ++ dumpBody b

theorem Stmt.dump_cond (c : Expr) (body : Block) (alternative : Option Block) :
    (Stmt.cond c body alternative).dump = "\nIf statement:\n Condition:" ++ c.dump ++ "  If body:" ++ dumpHead ++
      dumpBody body ++ "  Else body:" ++ dumpAlternative alternative := by
  cases alternative with
  | none =>
    unfold Stmt.dump
    rw [dumpAlternative, String.append_empty]
  | some b =>
    unfold Stmt.dump
    rw [dumpAlternative, ← String.append_assoc]

mutual

theorem Stmt.Alike.dump_eq : ∀ {s t : Stmt}, s.Alike t → s.dump = t.dump
  | _, _, .assign x defines h => by
    unfold Stmt.dump
    rw [h.dump_eq]
  | _, _, .branch word => rfl
  | _, _, .cond hc hbody halternative => by
    rw [Stmt.dump_cond, Stmt.dump_cond, hc.dump_eq, hbody.dump_eq, halternative.dump_eq]
  | _, _, .switch h harms => by
    unfold Stmt.dump
    rw [h.dump_eq, harms.dump_eq]

theorem Block.Alike.dump_eq : ∀ {b b' : Block}, Block.Alike b b' → dumpBody b = dumpBody b'
  | _, _, .nil => rfl
  | _, _, .cons h htail => by
    unfold dumpBody
    rw [h.dump_eq, htail.dump_eq]

theorem Block.OptionAlike.dump_eq : ∀ {b b' : Option Block}, Block.OptionAlike b b' →
    dumpAlternative b = dumpAlternative b'
  | _, _, .none => rfl
  | _, _, .some h => by rw [dumpAlternative, dumpAlternative, h.dump_eq]

theorem Arm.Alike.dump_eq : ∀ {arms arms' : List (Arm Stmt)}, Arm.Alike arms arms' → dumpArms arms = dumpArms arms'
  | _, _, .nil => rfl
  | _, _, .cons hguard hbody htail => by
    unfold dumpArms
    rw [hguard.dump_eq, hbody.dump_eq, htail.dump_eq]

end

theorem Procedure.Alike.dump_eq {p q : Procedure} (h : p.Alike q) : p.dump = q.dump := by
  unfold Procedure.dump
  rw [h.name, h.body.dump_eq]

end AddressLines
