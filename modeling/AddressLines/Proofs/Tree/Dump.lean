import AddressLines.Proofs.Code.Address
import AddressLines.Proofs.Number.RoundTrip
import AddressLines.Proofs.Text.Lines
import AddressLines.Proofs.Tree.Alike

/-!
# A dump tells the program

Nothing in a dump says where a part of the tree ends. What tells it is the heading that comes next, a letter behind line
feeds. An expression and an alternative have one line feed before their heading, a statement in a block and an arm of
a switch have two, and every statement that ends puts one more before the heading behind it. So the number of line
feeds says how many blocks have ended.

A text is spaced by `n` when a letter at its front has at least `n` line feeds before it (`Spaced`). What follows an
expression is spaced by two and what follows a statement by three; what follows a block is spaced by two and does not
begin with a statement (`EndsBlock`). In front of such texts every part can be read off, and what is left is the same on
both sides (`dump_append_inj`). Names, strings and operators are cut off at a quote or a line feed, which they must not
hold (`isQuotable`).
-/

namespace AddressLines

open Text

/-! ## Texts between quotes -/

/-- The text holds neither a single quote nor a line feed. -/
def Text.isQuotable (s : String) : Bool :=
  !s.toList.contains '\'' && isInline s

theorem Text.quote_notMem {s : String} (h : isQuotable s = true) : '\'' ∉ s.toList := by
  rw [isQuotable, Bool.and_eq_true] at h
  simpa using h.1

theorem Text.newline_notMem {s : String} (h : isQuotable s = true) : '\n' ∉ s.toList := by
  rw [isQuotable, Bool.and_eq_true] at h
  exact isInline_iff.mp h.2

def Literal.isQuotable : Literal → Bool
  | string s => Text.isQuotable s
  | _ => true

/-- Names, string literals and operators with one operand hold neither a single quote nor a line feed. -/
def Expr.isQuotable : Expr → Bool
  | absent => true
  | name x => Text.isQuotable x
  | literal l => l.isQuotable
  | unary op e => Text.isQuotable op && e.isQuotable
  | binary l _ r => l.isQuotable && r.isQuotable

mutual

def Stmt.isQuotable : Stmt → Bool
  | .assign x _ e => Text.isQuotable x && e.isQuotable
  | .branch _ => true
  | .cond c body none => c.isQuotable && Block.isQuotable body
  | .cond c body (some alternative) => c.isQuotable && Block.isQuotable body && Block.isQuotable alternative
  | .switch e arms => e.isQuotable && Arm.areQuotable arms

def Block.isQuotable : Block → Bool
  | [] => true
  | s :: ss => s.isQuotable && Block.isQuotable ss

def Arm.areQuotable : List (Arm Stmt) → Bool
  | [] => true
  | ⟨guard, body⟩ :: arms => guard.isQuotable && Block.isQuotable body && Arm.areQuotable arms

end

theorem Stmt.isQuotable_cond {c : Expr} {body : Block} {alternative : Option Block} :
    (Stmt.cond c body alternative).isQuotable = true ↔
      c.isQuotable = true ∧ Block.isQuotable body = true ∧ alternative.all Block.isQuotable = true := by
  cases alternative <;> simp [isQuotable, and_assoc]

def Procedure.isQuotable (p : Procedure) : Bool :=
  Text.isQuotable p.name && Block.isQuotable p.body

/-! ## Labels and headings -/

namespace Text

variable {m n : Nat} {c : Char} {cs ds r r' : List Char}

/-- A label ends the piece of text before it if that does not hold the first character of the label. -/
theorem append_label_inj {label : List Char} (hlabel : label.head? = some c) (hcs : c ∉ cs) (hds : c ∉ ds)
    (h : cs ++ (label ++ r) = ds ++ (label ++ r')) : cs = ds ∧ r = r' := by
  obtain ⟨tail, rfl⟩ := List.head?_eq_some_iff.mp hlabel
  obtain ⟨hpiece, hrest⟩ := append_cons_inj hcs hds h
  exact ⟨hpiece, List.append_cancel_left hrest⟩

/-- The line feeds that a text begins with, counted, and the character behind them. -/
def heading : List Char → Nat × Option Char
  | [] => (0, none)
  | c :: cs => if c = '\n' then ((heading cs).1 + 1, (heading cs).2) else (0, some c)

theorem heading_newline (cs : List Char) : heading ('\n' :: cs) = ((heading cs).1 + 1, (heading cs).2) := by
  rw [heading, if_pos rfl]

theorem heading_append (h : heading cs = (n, some c)) (r : List Char) : heading (cs ++ r) = (n, some c) := by
  induction cs generalizing n with
  | nil => simp [heading] at h
  | cons d cs ih =>
    by_cases hd : d = '\n'
    · subst hd
      rw [heading_newline, Prod.mk.injEq] at h
      rw [List.cons_append, heading_newline, ih (Prod.ext rfl h.2), Prod.mk.injEq]
      exact ⟨h.1, rfl⟩
    · rw [heading, if_neg hd] at h
      rw [List.cons_append, heading, if_neg hd, h]

/-- A letter at the front of the text has at least `n` line feeds before it. -/
def Spaced (n : Nat) (cs : List Char) : Prop :=
  ∀ m c, heading cs = (m, some c) → c.isAlpha = true → n ≤ m

theorem spaced_of_heading (h : heading cs = (m, some c)) (hm : c.isAlpha = true → n ≤ m) : Spaced n cs := by
  intro m' c' h' hc
  obtain ⟨rfl, rfl⟩ : m = m' ∧ c = c' := by simpa [h] using h'
  exact hm hc

theorem spaced_of_blank (h : heading cs = (m, some ' ')) : Spaced n cs :=
  spaced_of_heading h fun hletter => absurd hletter (by decide)

/-- A heading that comes too soon is not at the front of the text. -/
theorem Spaced.ne_of_heading (hr : Spaced n r) (h : heading r' = (m, some c)) (hc : c.isAlpha = true) (hm : m < n) :
    r ≠ r' := by
  rintro rfl
  exact absurd (hr m c h hc) (Nat.not_le_of_lt hm)

theorem Spaced.mono (h : Spaced n cs) (hle : m ≤ n) : Spaced m cs :=
  fun k c hheading hc => Nat.le_trans hle (h k c hheading hc)

theorem Spaced.newline (h : Spaced n cs) : Spaced (n + 1) ('\n' :: cs) := by
  intro m c hheading hc
  rw [heading_newline, Prod.mk.injEq] at hheading
  obtain ⟨rfl, hletter⟩ := hheading
  exact Nat.succ_le_succ (h _ c (Prod.ext rfl hletter) hc)

end Text

/-! ## Expressions -/

theorem toList_dumpName (x : String) (r : List Char) :
    (dumpName x).toList ++ r = "\nIdentifier\n  Name: '".toList ++ (x.toList ++ ("'\n".toList ++ r)) := by
  unfold dumpName
  simp only [String.toList_append, List.append_assoc]

theorem dumpName_append_inj {x y : String} {r r' : List Char} (hx : isQuotable x = true) (hy : isQuotable y = true)
    (h : (dumpName x).toList ++ r = (dumpName y).toList ++ r') : x = y ∧ r = r' := by
  rw [toList_dumpName, toList_dumpName] at h
  obtain ⟨hname, hrest⟩ := append_label_inj (by decide) (quote_notMem hx) (quote_notMem hy) (List.append_cancel_left h)
  exact ⟨String.toList_inj.mp hname, hrest⟩

namespace Literal

variable {l m : Literal}

theorem toList_dump (l : Literal) (r : List Char) :
    l.dump.toList ++ r = "\nLiteral\n  Type:".toList ++ (l.kindName.toList ++
      ("\n  Value: '".toList ++ (l.value.toList ++ ("'\n".toList ++ r)))) := by
  unfold dump
  simp only [String.toList_append, List.append_assoc]

theorem newline_notMem_kindName (l : Literal) : '\n' ∉ l.kindName.toList := by
  cases l <;> simp [kindName]

theorem quote_notMem_value (h : l.isQuotable = true) : '\'' ∉ l.value.toList := by
  cases l with
  | integer n => exact fun hmem => absurd (Numeral.isMark_of_mem_repr _ hmem) (by decide)
  | float x => exact fun hmem => absurd (x.isMark_of_mem_text _ hmem) (by decide)
  | string s => exact Text.quote_notMem h
  | boolean b => cases b <;> decide

theorem toList_repr_ofNat (n : Nat) : (Int.ofNat n).repr.toList = Nat.toDigits 10 n := by
  simp [Int.repr]

theorem toList_repr_negSucc (n : Nat) : (Int.negSucc n).repr.toList = '-' :: Nat.toDigits 10 (n + 1) := by
  simp [Int.repr]

/-- Different integers are written differently: no digit is a sign. -/
theorem integer_inj {a b : Int} (h : (integer a).value = (integer b).value) : a = b := by
  have hsign (n : Nat) : '-' ∉ Nat.toDigits 10 n := Address.notMem_toDigits (by decide) n
  replace h : a.repr.toList = b.repr.toList := congrArg String.toList h
  cases a with
  | ofNat m =>
    rw [toList_repr_ofNat] at h
    cases b with
    | ofNat n => rw [Address.toDigits_injective (h.trans (toList_repr_ofNat n))]
    | negSucc n =>
      rw [toList_repr_negSucc] at h
      exact absurd (h ▸ List.mem_cons_self ..) (hsign m)
  | negSucc m =>
    rw [toList_repr_negSucc] at h
    cases b with
    | ofNat n =>
      rw [toList_repr_ofNat] at h
      exact absurd (h ▸ List.mem_cons_self ..) (hsign n)
    | negSucc n =>
      rw [toList_repr_negSucc] at h
      have hnumber : m + 1 = n + 1 := Address.toDigits_injective (List.cons.inj h).2
      rw [Nat.succ.inj hnumber]

/-- A literal is told by its kind and its value, floats up to their text. -/
theorem alike_of_value_eq (hkind : l.kindName = m.kindName) (hvalue : l.value = m.value) : l.Alike m := by
  cases l with
  | integer a =>
    cases m with
    | integer b =>
      obtain rfl : a = b := integer_inj hvalue
      exact .refl _
    | _ => simp [kindName] at hkind
  | float x =>
    cases m with
    | float y => exact .float hvalue
    | _ => simp [kindName] at hkind
  | string s =>
    cases m with
    | string t =>
      obtain rfl : s = t := hvalue
      exact .refl _
    | _ => simp [kindName] at hkind
  | boolean a =>
    cases m with
    | boolean b =>
      obtain rfl : a = b := by
        revert hvalue
        cases a <;> cases b <;> decide
      exact .refl _
    | _ => simp [kindName] at hkind

theorem dump_append_inj {r r' : List Char} (hl : l.isQuotable = true) (hm : m.isQuotable = true)
    (h : l.dump.toList ++ r = m.dump.toList ++ r') : l.Alike m ∧ r = r' := by
  rw [toList_dump, toList_dump] at h
  obtain ⟨hkind, hline⟩ := append_label_inj (by decide) l.newline_notMem_kindName m.newline_notMem_kindName
    (List.append_cancel_left h)
  obtain ⟨hvalue, hrest⟩ := append_label_inj (by decide) (quote_notMem_value hl) (quote_notMem_value hm) hline
  exact ⟨alike_of_value_eq (String.toList_inj.mp hkind) (String.toList_inj.mp hvalue), hrest⟩

end Literal

theorem BinOp.newline_notMem_symbol (op : BinOp) : '\n' ∉ op.symbol.toList := by
  cases op <;> decide

namespace Expr

/-- The first letter of the dump, which an absent expression lacks. -/
def initial? : Expr → Option Char
  | absent => none
  | name _ => some 'I'
  | literal _ => some 'L'
  | unary _ _ => some 'U'
  | binary _ _ _ => some 'B'

theorem dump_name (x : String) : (name x).dump = dumpName x := rfl

theorem dump_literal (l : Literal) : (literal l).dump = l.dump := rfl

theorem toList_dump_unary (op : String) (e : Expr) (r : List Char) :
    (unary op e).dump.toList ++ r = "\nUnary expression\n  Operator:".toList ++ (op.toList ++
      ("\n  Operand:\n".toList ++ (e.dump.toList ++ r))) := by
  conv => lhs; unfold dump
  simp only [String.toList_append, List.append_assoc]

theorem toList_dump_binary (left : Expr) (op : BinOp) (right : Expr) (r : List Char) :
    (binary left op right).dump.toList ++ r = "\nBinary expression:\n  Left operand:\n".toList ++ (left.dump.toList ++
      ("\n  Operator: ".toList ++ (op.symbol.toList ++
        ("\n  Right operand:\n".toList ++ (right.dump.toList ++ r))))) := by
  conv => lhs; unfold dump
  simp only [String.toList_append, List.append_assoc]

theorem heading_dump {e : Expr} {c : Char} (h : e.initial? = some c) (r : List Char) :
    heading (e.dump.toList ++ r) = (1, some c) := by
  cases e with
  | absent => cases h
  | name x =>
    cases h
    rw [dump_name, toList_dumpName]
    exact heading_append (by decide) _
  | literal l =>
    cases h
    rw [dump_literal, Literal.toList_dump]
    exact heading_append (by decide) _
  | unary op e =>
    cases h
    rw [toList_dump_unary]
    exact heading_append (by decide) _
  | binary left op right =>
    cases h
    rw [toList_dump_binary]
    exact heading_append (by decide) _

theorem eq_absent_of_initial? {e : Expr} (h : e.initial? = none) : e = absent := by
  cases e with
  | absent => rfl
  | _ => cases h

theorem isAlpha_of_initial? {e : Expr} {c : Char} (h : e.initial? = some c) : c.isAlpha = true := by
  cases e <;> cases h <;> rfl

/-- An absent expression leaves the heading to what follows it, where none stands behind one line feed. -/
theorem initial?_eq_of_dump_eq {e f : Expr} {r r' : List Char} (hr : Spaced 2 r) (hr' : Spaced 2 r')
    (h : e.dump.toList ++ r = f.dump.toList ++ r') : e.initial? = f.initial? := by
  cases he : e.initial? with
  | none =>
    cases hf : f.initial? with
    | none => rfl
    | some c =>
      rw [eq_absent_of_initial? he] at h
      exact absurd h (hr.ne_of_heading (heading_dump hf r') (isAlpha_of_initial? hf) (by decide))
  | some c =>
    cases hf : f.initial? with
    | none =>
      rw [eq_absent_of_initial? hf] at h
      exact absurd h.symm (hr'.ne_of_heading (heading_dump he r) (isAlpha_of_initial? he) (by decide))
    | some d =>
      have hheading := congrArg heading h
      rw [heading_dump he, heading_dump hf] at hheading
      exact (Prod.mk.inj hheading).2

/-- Expressions with the same dump are alike, whatever follows that is spaced by two line feeds. -/
theorem dump_append_inj {e f : Expr} {r r' : List Char} (he : e.isQuotable = true) (hf : f.isQuotable = true)
    (hr : Spaced 2 r) (hr' : Spaced 2 r') (h : e.dump.toList ++ r = f.dump.toList ++ r') : e.Alike f ∧ r = r' := by
  induction e generalizing f r r' with
  | absent =>
    have hinitial := initial?_eq_of_dump_eq hr hr' h
    obtain rfl := eq_absent_of_initial? hinitial.symm
    exact ⟨.absent, h⟩
  | name x =>
    have hinitial := initial?_eq_of_dump_eq hr hr' h
    cases f with
    | name y =>
      obtain ⟨rfl, hrest⟩ := dumpName_append_inj he hf h
      exact ⟨.name x, hrest⟩
    | _ => simp [initial?] at hinitial
  | literal l =>
    have hinitial := initial?_eq_of_dump_eq hr hr' h
    cases f with
    | literal m =>
      obtain ⟨halike, hrest⟩ := Literal.dump_append_inj he hf h
      exact ⟨.literal halike, hrest⟩
    | _ => simp [initial?] at hinitial
  | unary op e ih =>
    have hinitial := initial?_eq_of_dump_eq hr hr' h
    cases f with
    | unary op' f =>
      rw [isQuotable, Bool.and_eq_true] at he hf
      rw [toList_dump_unary, toList_dump_unary] at h
      obtain ⟨hop, hoperand⟩ := append_label_inj (by decide) (newline_notMem he.1) (newline_notMem hf.1)
        (List.append_cancel_left h)
      obtain rfl : op = op' := String.toList_inj.mp hop
      obtain ⟨halike, hrest⟩ := ih he.2 hf.2 hr hr' hoperand
      exact ⟨.unary op halike, hrest⟩
    | _ => simp [initial?] at hinitial
  | binary left op right ihl ihr =>
    have hinitial := initial?_eq_of_dump_eq hr hr' h
    cases f with
    | binary left' op' right' =>
      have hspaced : ∀ cs : List Char, Spaced 2 ("\n  Operator: ".toList ++ cs) := fun cs =>
        spaced_of_blank (m := 1) (heading_append (by decide) cs)
      rw [isQuotable, Bool.and_eq_true] at he hf
      rw [toList_dump_binary, toList_dump_binary] at h
      obtain ⟨hleft, hline⟩ := ihl he.1 hf.1 (hspaced _) (hspaced _) (List.append_cancel_left h)
      obtain ⟨hop, hoperand⟩ := append_label_inj (by decide) op.newline_notMem_symbol op'.newline_notMem_symbol
        (List.append_cancel_left hline)
      obtain rfl : op = op' := BinOp.symbol_injective (String.toList_inj.mp hop)
      obtain ⟨hright, hrest⟩ := ihr he.2 hf.2 hr hr' hoperand
      exact ⟨.binary op hleft hright, hrest⟩
    | _ => simp [initial?] at hinitial

end Expr

/-! ## Statements -/

theorem Branch.quote_notMem_keyword (word : Branch) : '\'' ∉ word.keyword.toList := by
  cases word <;> decide

theorem Branch.keyword_injective {a b : Branch} (h : a.keyword = b.keyword) : a = b := by
  revert h
  cases a <;> cases b <;> decide

namespace Stmt

/-- The first letter of the dump. -/
def initial : Stmt → Char
  | .assign .. => 'A'
  | .branch _ => 'B'
  | .cond .. => 'I'
  | .switch .. => 'S'

theorem newline_notMem_assignSign (defines : Bool) : '\n' ∉ (assignSign defines).toList := by
  cases defines <;> decide

theorem assignSign_injective {a b : Bool} (h : assignSign a = assignSign b) : a = b := by
  revert h
  cases a <;> cases b <;> decide

theorem toList_dump_assign (x : String) (defines : Bool) (e : Expr) (r : List Char) :
    (Stmt.assign x defines e).dump.toList ++ r = "\nAssign statement\n  Identifier:\n".toList ++ ((dumpName x).toList ++
      ("\n  Operator: ".toList ++ ((assignSign defines).toList ++
        ("\n  Expression:\n".toList ++ (e.dump.toList ++ r))))) := by
  unfold dump
  simp only [String.toList_append, List.append_assoc]

theorem toList_dump_branch (word : Branch) (r : List Char) :
    (Stmt.branch word).dump.toList ++ r =
      "\nBranch statement:\n  Keyword: '".toList ++ (word.keyword.toList ++ ("'".toList ++ r)) := by
  unfold dump
  simp only [String.toList_append, List.append_assoc]

theorem toList_dump_cond (c : Expr) (body : Block) (alternative : Option Block) (r : List Char) :
    (Stmt.cond c body alternative).dump.toList ++ r = "\nIf statement:\n Condition:".toList ++ (c.dump.toList ++
      ("  If body:".toList ++ (dumpHead.toList ++ ((dumpBody body).toList ++
        ("  Else body:".toList ++ ((dumpAlternative alternative).toList ++ r)))))) := by
  rw [dump_cond]
  simp only [String.toList_append, List.append_assoc]

theorem toList_dump_switch (e : Expr) (arms : List (Arm Stmt)) (r : List Char) :
    (Stmt.switch e arms).dump.toList ++ r = "\nSwitch statement:\n  Expression:".toList ++ (e.dump.toList ++
      ("  Body:".toList ++ ((dumpArms arms).toList ++ r))) := by
  unfold dump
  simp only [String.toList_append, List.append_assoc]

theorem heading_dump (s : Stmt) (r : List Char) : heading (s.dump.toList ++ r) = (1, some s.initial) := by
  cases s with
  | assign x defines e =>
    rw [toList_dump_assign]
    exact heading_append (c := 'A') (by decide) _
  | branch word =>
    rw [toList_dump_branch]
    exact heading_append (c := 'B') (by decide) _
  | cond c body alternative =>
    rw [toList_dump_cond]
    exact heading_append (c := 'I') (by decide) _
  | switch e arms =>
    rw [toList_dump_switch]
    exact heading_append (c := 'S') (by decide) _

theorem initial_eq_of_dump_eq {s t : Stmt} {r r' : List Char} (h : s.dump.toList ++ r = t.dump.toList ++ r') :
    s.initial = t.initial := by
  have hheading := congrArg heading h
  rw [heading_dump, heading_dump] at hheading
  exact Option.some.inj (Prod.mk.inj hheading).2

end Stmt

/-! ## What follows a block -/

section

variable {r : List Char}

theorem toList_dumpBody_cons (s : Stmt) (ss : Block) (r : List Char) :
    (dumpBody (s :: ss)).toList ++ r = '\n' :: (s.dump.toList ++ '\n' :: ((dumpBody ss).toList ++ r)) := by
  conv => lhs; unfold dumpBody
  simp

theorem toList_dumpArms_cons (guard : Expr) (body : Block) (arms : List (Arm Stmt)) (r : List Char) :
    (dumpArms (⟨guard, body⟩ :: arms)).toList ++ r = "\n\nCase statement:\n  Case:\n".toList ++ (guard.dump.toList ++
      ("  Body:".toList ++ (dumpHead.toList ++ ((dumpBody body).toList ++ ((dumpArms arms).toList ++ r))))) := by
  conv => lhs; unfold dumpArms
  simp only [String.toList_append, List.append_assoc]

theorem heading_dumpBody_cons (s : Stmt) (ss : Block) (r : List Char) :
    heading ((dumpBody (s :: ss)).toList ++ r) = (2, some s.initial) := by
  rw [toList_dumpBody_cons, heading_newline, Stmt.heading_dump]

theorem heading_dumpArms_cons (arm : Arm Stmt) (arms : List (Arm Stmt)) (r : List Char) :
    heading ((dumpArms (arm :: arms)).toList ++ r) = (2, some 'C') := by
  obtain ⟨guard, body⟩ := arm
  rw [toList_dumpArms_cons]
  exact heading_append (by decide) _

theorem heading_dumpAlternative_some (b : Block) (r : List Char) :
    heading ((dumpAlternative (some b)).toList ++ r) = (1, some 'B') := by
  rw [dumpAlternative, String.toList_append, List.append_assoc]
  exact heading_append (by decide) _

/-- The text can stand behind the statements of a block: it is spaced by two and begins with none itself. -/
structure EndsBlock (r : List Char) : Prop where
  spaced : Spaced 2 r
  heading_ne (s : Stmt) : heading r ≠ (2, some s.initial)

theorem endsBlock_of_heading {n : Nat} {c : Char} (h : heading r = (n, some c)) (hn : c.isAlpha = true → 2 ≤ n)
    (hc : c ∉ ['A', 'B', 'I', 'S']) : EndsBlock r := by
  refine ⟨spaced_of_heading h hn, fun s hs => hc ?_⟩
  rw [h] at hs
  rw [Option.some.inj (Prod.mk.inj hs).2]
  cases s <;> simp [Stmt.initial]

/-- Where a statement ends, the block it is in may end with it. -/
theorem endsBlock_of_spaced (h : Spaced 3 r) : EndsBlock r := by
  refine ⟨h.mono (by decide), fun s hs => ?_⟩
  have hletter : s.initial.isAlpha = true := by cases s <;> rfl
  exact absurd (h 2 _ hs hletter) (by decide)

theorem endsBlock_dumpArms (hr : Spaced 3 r) (arms : List (Arm Stmt)) : EndsBlock ((dumpArms arms).toList ++ r) := by
  cases arms with
  | nil => exact endsBlock_of_spaced hr
  | cons arm arms => exact endsBlock_of_heading (heading_dumpArms_cons arm arms r) (fun _ => Nat.le_refl 2) (by decide)

/-- The line feed behind a statement spaces what follows it by one more than the block asks for. -/
theorem EndsBlock.spaced_behind (hr : EndsBlock r) (b : Block) : Spaced 3 ('\n' :: ((dumpBody b).toList ++ r)) := by
  apply Spaced.newline
  cases b with
  | nil => exact hr.spaced
  | cons s ss => exact spaced_of_heading (heading_dumpBody_cons s ss r) fun _ => Nat.le_refl 2

theorem EndsBlock.ne_dumpBody_cons (hr : EndsBlock r) (s : Stmt) (ss : Block) (r' : List Char) :
    r ≠ (dumpBody (s :: ss)).toList ++ r' := by
  rintro rfl
  exact hr.heading_ne s (heading_dumpBody_cons s ss r')

theorem spaced_bodyLabel (cs : List Char) : Spaced 2 ("  Body:".toList ++ cs) :=
  spaced_of_blank (m := 0) (heading_append (by decide) cs)

end

/-! ## Reading back -/

mutual

/-- Statements with the same dump are alike, whatever follows that is spaced by three line feeds. -/
theorem Stmt.dump_append_inj : ∀ (s t : Stmt), s.isQuotable = true → t.isQuotable = true →
    ∀ {r r' : List Char}, Spaced 3 r → Spaced 3 r' → s.dump.toList ++ r = t.dump.toList ++ r' → s.Alike t ∧ r = r'
  | .assign x defines e => by
    intro t hs ht r r' hr hr' h
    have hinitial := Stmt.initial_eq_of_dump_eq h
    cases t with
    | assign y defines' f =>
      rw [Stmt.isQuotable, Bool.and_eq_true] at hs ht
      rw [Stmt.toList_dump_assign, Stmt.toList_dump_assign] at h
      obtain ⟨rfl, hline⟩ := dumpName_append_inj hs.1 ht.1 (List.append_cancel_left h)
      obtain ⟨hsign, hvalue⟩ := append_label_inj (by decide) (Stmt.newline_notMem_assignSign defines)
        (Stmt.newline_notMem_assignSign defines') (List.append_cancel_left hline)
      obtain rfl := Stmt.assignSign_injective (String.toList_inj.mp hsign)
      obtain ⟨halike, hrest⟩ := Expr.dump_append_inj hs.2 ht.2 (hr.mono (by decide)) (hr'.mono (by decide)) hvalue
      exact ⟨.assign x defines halike, hrest⟩
    | _ => simp [Stmt.initial] at hinitial
  | .branch word => by
    intro t hs ht r r' hr hr' h
    have hinitial := Stmt.initial_eq_of_dump_eq h
    cases t with
    | branch word' =>
      rw [Stmt.toList_dump_branch, Stmt.toList_dump_branch] at h
      obtain ⟨hword, hrest⟩ := append_label_inj (by decide) word.quote_notMem_keyword word'.quote_notMem_keyword
        (List.append_cancel_left h)
      obtain rfl := Branch.keyword_injective (String.toList_inj.mp hword)
      exact ⟨.branch word, hrest⟩
    | _ => simp [Stmt.initial] at hinitial
  | .cond c body alternative => by
    intro t hs ht r r' hr hr' h
    have hinitial := Stmt.initial_eq_of_dump_eq h
    cases t with
    | cond c' body' alternative' =>
      obtain ⟨hqc, hqbody, hqalternative⟩ := Stmt.isQuotable_cond.mp hs
      obtain ⟨hqc', hqbody', hqalternative'⟩ := Stmt.isQuotable_cond.mp ht
      have hthen : ∀ cs : List Char, Spaced 2 ("  If body:".toList ++ cs) := fun cs =>
        spaced_of_blank (m := 0) (heading_append (by decide) cs)
      have helse : ∀ cs : List Char, EndsBlock ("  Else body:".toList ++ cs) := fun cs =>
        endsBlock_of_heading (n := 0) (c := ' ') (heading_append (by decide) cs) (by decide) (by decide)
      rw [Stmt.toList_dump_cond, Stmt.toList_dump_cond] at h
      obtain ⟨hcondition, hif⟩ := Expr.dump_append_inj hqc hqc' (hthen _) (hthen _) (List.append_cancel_left h)
      obtain ⟨hbody, hrest⟩ := dumpBody_append_inj body body' hqbody hqbody' (helse _) (helse _)
        (List.append_cancel_left (List.append_cancel_left hif))
      obtain ⟨halternative, hrest⟩ := dumpAlternative_append_inj alternative alternative' hqalternative hqalternative'
        hr hr' (List.append_cancel_left hrest)
      exact ⟨.cond hcondition hbody halternative, hrest⟩
    | _ => simp [Stmt.initial] at hinitial
  | .switch e arms => by
    intro t hs ht r r' hr hr' h
    have hinitial := Stmt.initial_eq_of_dump_eq h
    cases t with
    | switch f arms' =>
      rw [Stmt.isQuotable, Bool.and_eq_true] at hs ht
      rw [Stmt.toList_dump_switch, Stmt.toList_dump_switch] at h
      obtain ⟨hsubject, hbody⟩ := Expr.dump_append_inj hs.1 ht.1 (spaced_bodyLabel _) (spaced_bodyLabel _)
        (List.append_cancel_left h)
      obtain ⟨harms, hrest⟩ := dumpArms_append_inj arms arms' hs.2 ht.2 hr hr' (List.append_cancel_left hbody)
      exact ⟨.switch hsubject harms, hrest⟩
    | _ => simp [Stmt.initial] at hinitial

theorem dumpBody_append_inj : ∀ (b b' : Block), Block.isQuotable b = true → Block.isQuotable b' = true →
    ∀ {r r' : List Char}, EndsBlock r → EndsBlock r' → (dumpBody b).toList ++ r = (dumpBody b').toList ++ r' →
    Block.Alike b b' ∧ r = r'
  | [], [] => by
    intro _ _ r r' _ _ h
    exact ⟨.nil, h⟩
  | [], t :: ts => by
    intro _ _ r r' hr _ h
    exact absurd h (hr.ne_dumpBody_cons t ts r')
  | s :: ss, [] => by
    intro _ _ r r' _ hr' h
    exact absurd h.symm (hr'.ne_dumpBody_cons s ss r)
  | s :: ss, t :: ts => by
    intro hss hts r r' hr hr' h
    rw [Block.isQuotable, Bool.and_eq_true] at hss hts
    rw [toList_dumpBody_cons, toList_dumpBody_cons] at h
    obtain ⟨halike, htail⟩ := Stmt.dump_append_inj s t hss.1 hts.1 (hr.spaced_behind ss) (hr'.spaced_behind ts)
      (List.cons.inj h).2
    obtain ⟨halikes, hrest⟩ := dumpBody_append_inj ss ts hss.2 hts.2 hr hr' (List.cons.inj htail).2
    exact ⟨.cons halike halikes, hrest⟩

theorem dumpAlternative_append_inj : ∀ (b b' : Option Block), b.all Block.isQuotable = true →
    b'.all Block.isQuotable = true → ∀ {r r' : List Char}, Spaced 3 r → Spaced 3 r' →
    (dumpAlternative b).toList ++ r = (dumpAlternative b').toList ++ r' → Block.OptionAlike b b' ∧ r = r'
  | none, none => by
    intro _ _ r r' _ _ h
    exact ⟨.none, h⟩
  | none, some b' => by
    intro _ _ r r' hr _ h
    exact absurd h (hr.ne_of_heading (heading_dumpAlternative_some b' r') (by decide) (by decide))
  | some b, none => by
    intro _ _ r r' _ hr' h
    exact absurd h.symm (hr'.ne_of_heading (heading_dumpAlternative_some b r) (by decide) (by decide))
  | some b, some b' => by
    intro hb hb' r r' hr hr' h
    rw [dumpAlternative, dumpAlternative, String.toList_append, String.toList_append, List.append_assoc,
      List.append_assoc] at h
    obtain ⟨halike, hrest⟩ := dumpBody_append_inj b b' (by simpa using hb) (by simpa using hb')
      (endsBlock_of_spaced hr) (endsBlock_of_spaced hr') (List.append_cancel_left h)
    exact ⟨.some halike, hrest⟩

theorem dumpArms_append_inj : ∀ (arms arms' : List (Arm Stmt)), Arm.areQuotable arms = true →
    Arm.areQuotable arms' = true → ∀ {r r' : List Char}, Spaced 3 r → Spaced 3 r' →
    (dumpArms arms).toList ++ r = (dumpArms arms').toList ++ r' → Arm.Alike arms arms' ∧ r = r'
  | [], [] => by
    intro _ _ r r' _ _ h
    exact ⟨.nil, h⟩
  | [], arm' :: arms' => by
    intro _ _ r r' hr _ h
    exact absurd h (hr.ne_of_heading (heading_dumpArms_cons arm' arms' r') (by decide) (by decide))
  | arm :: arms, [] => by
    intro _ _ r r' _ hr' h
    exact absurd h.symm (hr'.ne_of_heading (heading_dumpArms_cons arm arms r) (by decide) (by decide))
  | ⟨guard, body⟩ :: arms, ⟨guard', body'⟩ :: arms' => by
    intro ha ha' r r' hr hr' h
    simp only [Arm.areQuotable, Bool.and_eq_true] at ha ha'
    rw [toList_dumpArms_cons, toList_dumpArms_cons] at h
    obtain ⟨hguard, hcase⟩ := Expr.dump_append_inj ha.1.1 ha'.1.1 (spaced_bodyLabel _) (spaced_bodyLabel _)
      (List.append_cancel_left h)
    -- A body ends at the next arm, or where the switch ends.
    obtain ⟨hbody, htail⟩ := dumpBody_append_inj body body' ha.1.2 ha'.1.2 (endsBlock_dumpArms hr arms)
      (endsBlock_dumpArms hr' arms') (List.append_cancel_left (List.append_cancel_left hcase))
    obtain ⟨harms, hrest⟩ := dumpArms_append_inj arms arms' ha.2 ha'.2 hr hr' htail
    exact ⟨.cons hguard hbody harms, hrest⟩

end

/-! ## Procedures and programs -/

theorem Procedure.toList_dump (p : Procedure) (r : List Char) :
    p.dump.toList ++ r = "\nFunction declaration\n  Name: ".toList ++ ((dumpName p.name).toList ++
      ("\n  Body: ".toList ++ (dumpHead.toList ++ ((dumpBody p.body).toList ++ r)))) := by
  unfold dump
  simp only [String.toList_append, List.append_assoc]

/-- The dumps of procedures, one behind the other. -/
def dumpProcedures (ps : List Procedure) : List Char :=
  ps.flatMap fun p => "  ".toList ++ (p.dump.toList ++ ['\n'])

theorem dumpProcedures_cons (p : Procedure) (ps : List Procedure) (r : List Char) :
    dumpProcedures (p :: ps) ++ r = "  ".toList ++ (p.dump.toList ++ '\n' :: (dumpProcedures ps ++ r)) := by
  simp only [dumpProcedures, List.flatMap_cons, List.append_assoc, List.cons_append, List.nil_append]

/-- What the dump of a program without faults ends with. -/
def dumpClosing : List Char :=
  "\nErrors:\n\n".toList

theorem Program.toList_dump (package : Option String) (ps : List Procedure) :
    (Program.mk package ps []).dump.toList = "Package:\n  Name: '".toList ++ ((package.getD "").toList ++
      ("'\nDeclarations:\n".toList ++ (dumpProcedures ps ++ dumpClosing))) := by
  have hnewline : "\n".toList = ['\n'] := by decide
  have hclosing : dumpClosing = "\nErrors:\n".toList ++ ((Fault.listing []).toList ++ ['\n']) := by decide
  unfold dump
  simp only [String.toList_append, List.append_assoc, String.toList_join, List.flatMap_map, dumpProcedures, hnewline,
    hclosing]

theorem endsBlock_dumpProcedures (ps : List Procedure) : EndsBlock ('\n' :: (dumpProcedures ps ++ dumpClosing)) := by
  cases ps with
  | nil => exact endsBlock_of_heading (n := 2) (c := 'E') (by decide) (by decide) (by decide)
  | cons p ps =>
    rw [dumpProcedures_cons]
    have hheading := @heading_append 1 ' ' ('\n' :: "  ".toList) (by decide)
    exact endsBlock_of_heading (hheading _) (by decide) (by decide)

theorem dumpProcedures_inj {ps qs : List Procedure} (hps : ∀ p ∈ ps, p.isQuotable = true)
    (hqs : ∀ q ∈ qs, q.isQuotable = true) (h : dumpProcedures ps ++ dumpClosing = dumpProcedures qs ++ dumpClosing) :
    List.Forall₂ Procedure.Alike ps qs := by
  have hfirst : ∀ (p : Procedure) (ps : List Procedure),
      heading (dumpProcedures (p :: ps) ++ dumpClosing) = (0, some ' ') := by
    intro p ps
    rw [dumpProcedures_cons]
    exact heading_append (by decide) _
  have hlast : heading dumpClosing = (1, some 'E') := by decide
  induction ps generalizing qs with
  | nil =>
    cases qs with
    | nil => exact .nil
    | cons q qs =>
      have hheading : heading dumpClosing = (0, some ' ') := (congrArg heading h).trans (hfirst q qs)
      exact absurd (hlast.symm.trans hheading) (by decide)
  | cons p ps ih =>
    cases qs with
    | nil =>
      have hheading : heading dumpClosing = (0, some ' ') := (congrArg heading h.symm).trans (hfirst p ps)
      exact absurd (hlast.symm.trans hheading) (by decide)
    | cons q qs =>
      obtain ⟨hp, hps⟩ := List.forall_mem_cons.mp hps
      obtain ⟨hq, hqs⟩ := List.forall_mem_cons.mp hqs
      rw [Procedure.isQuotable, Bool.and_eq_true] at hp hq
      rw [dumpProcedures_cons, dumpProcedures_cons, Procedure.toList_dump, Procedure.toList_dump] at h
      obtain ⟨hname, hline⟩ :=
        dumpName_append_inj hp.1 hq.1 (List.append_cancel_left (List.append_cancel_left h))
      obtain ⟨hbody, hrest⟩ := dumpBody_append_inj p.body q.body hp.2 hq.2 (endsBlock_dumpProcedures ps)
        (endsBlock_dumpProcedures qs) (List.append_cancel_left (List.append_cancel_left hline))
      exact .cons ⟨hname, hbody⟩ (ih hps hqs (List.cons.inj hrest).2)

theorem dumpProcedures_eq_of_alike {ps qs : List Procedure} (h : List.Forall₂ Procedure.Alike ps qs) :
    dumpProcedures ps = dumpProcedures qs := by
  induction h with
  | nil => rfl
  | cons h _ ih =>
    unfold dumpProcedures at ih ⊢
    rw [List.flatMap_cons, List.flatMap_cons, h.dump_eq, ih]

/-- Programs with the same package and without faults have the same dump exactly when their procedures are equal but
for float literals, and these have the same text. -/
theorem Program.dump_eq_iff {package : Option String} {ps qs : List Procedure} (hps : ∀ p ∈ ps, p.isQuotable = true)
    (hqs : ∀ q ∈ qs, q.isQuotable = true) :
    (Program.mk package ps []).dump = (Program.mk package qs []).dump ↔ List.Forall₂ Procedure.Alike ps qs := by
  rw [← String.toList_inj, Program.toList_dump, Program.toList_dump]
  constructor
  · intro h
    exact dumpProcedures_inj hps hqs
      (List.append_cancel_left (List.append_cancel_left (List.append_cancel_left h)))
  · intro h
    rw [dumpProcedures_eq_of_alike h]

/-- A conditional with a float in its alternative, statements at the end of the alternative, and statements behind the
conditional. -/
def nestedProcedure (x : Binary64) (inside behind : Block) : Procedure :=
  ⟨"f", .cond (.unary "!" (.name "a")) [] (some (.assign "x" true (.literal (.float x)) :: inside)) :: behind⟩

/-- The bits of what is not a number are lost in a dump; where a `return` stands is not. -/
theorem Program.dump_eq_iff_nested :
    (Program.mk "p" [nestedProcedure ⟨0x7ff8000000000000⟩ [] [.branch .returns]] []).dump =
        (Program.mk "p" [nestedProcedure ⟨0xfff0000000000001⟩ [] [.branch .returns]] []).dump ∧
      (Program.mk "p" [nestedProcedure ⟨0x7ff8000000000000⟩ [] [.branch .returns]] []).dump ≠
        (Program.mk "p" [nestedProcedure ⟨0x7ff8000000000000⟩ [.branch .returns] []] []).dump := by
  have htext : (⟨0x7ff8000000000000⟩ : Binary64).text = (⟨0xfff0000000000001⟩ : Binary64).text :=
    Binary64.text_eq_iff.mpr (.inr ⟨by decide, by decide⟩)
  constructor
  · refine (dump_eq_iff (by decide) (by decide)).mpr (.cons ⟨rfl, .cons ?_ (.cons (.branch _) .nil)⟩ .nil)
    exact .cond (.unary _ (.name _)) .nil (.some (.cons (.assign _ _ (.literal (.float htext))) .nil))
  · intro h
    obtain ⟨hprocedure, -⟩ := List.forall₂_cons.mp ((dump_eq_iff (by decide) (by decide)).mp h)
    cases hprocedure.body with
    | cons _ htail => cases htail

end AddressLines
