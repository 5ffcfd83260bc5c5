import AddressLines.Code.Line
import AddressLines.Proofs.Number.Marks
import AddressLines.Proofs.Token.Shape

/-!
# Plain programs

In a plain program names look like names and no operator holds a line feed. What is written out for it then holds a
line feed only where a string literal does: numbers, words and signs are written without one. Plainness passes
from statements to the steps they become, and what the lines of the steps say is on one line each if and only if
no string literal in them holds a line feed.
-/

namespace AddressLines

open Text

/-! ## Numbers -/

theorem isInline_of_isMark {s : String} (h : ∀ c ∈ s.toList, Numeral.isMark c = true) : isInline s = true := by
  rw [isInline_iff]
  intro hmem
  exact absurd (h '\n' hmem) (by decide)

theorem isInline_repr (n : Int) : isInline n.repr = true :=
  isInline_of_isMark Numeral.isMark_of_mem_repr

theorem Binary64.isInline_text (x : Binary64) : isInline x.text = true :=
  isInline_of_isMark x.isMark_of_mem_text

/-! ## Expressions -/

namespace Expr

/-- Names look like names, and no operator holds a line feed. -/
def isPlain : Expr → Bool
  | absent => true
  | name x => Token.isIdentifier x
  | literal _ => true
  | unary op e => isInline op && e.isPlain
  | binary l _ r => l.isPlain && r.isPlain

/-- The string literals in an expression. -/
def strings : Expr → List String
  | literal (.string s) => [s]
  | absent | name _ | literal _ => []
  | unary _ e => e.strings
  | binary l _ r => l.strings ++ r.strings

end Expr

theorem isInline_codeName (x : String) : isInline (codeName x) = isInline x := by
  have hsign : isInline "&" = true := by decide
  simp [codeName, hsign]

theorem Expr.isInline_code_iff {e : Expr} (h : e.isPlain = true) :
    isInline e.code = true ↔ ∀ s ∈ e.strings, isInline s = true := by
  have hspace : isInline " " = true := by decide
  induction e with
  | absent => simp [code, strings, isInline]
  | name x => simp [code, strings, isInline_codeName, Token.isInline_of_isIdentifier h]
  | literal l =>
    cases l with
    | integer n => simp [code, Literal.code, Literal.value, strings, isInline_repr]
    | float x => simp [code, Literal.code, Literal.value, strings, Binary64.isInline_text]
    | string s =>
      have hquote : isInline "\"" = true := by decide
      simp [code, Literal.code, strings, hquote]
    | boolean b => cases b <;> simp [code, Literal.code, Literal.value, strings, isInline]
  | unary op e ih =>
    obtain ⟨hop, he⟩ : isInline op = true ∧ e.isPlain = true := by simpa [isPlain] using h
    simp [code, strings, hop, hspace, ih he]
  | binary l op r ihl ihr =>
    obtain ⟨hl, hr⟩ : l.isPlain = true ∧ r.isPlain = true := by simpa [isPlain] using h
    have hop : isInline op.symbol = true := by cases op <;> decide
    simp [code, strings, hop, hspace, ihl hl, ihr hr, or_imp, forall_and]

/-! ## Steps -/

mutual

def Step.isPlain : Step → Bool
  | .assign x e => Token.isIdentifier x && e.isPlain
  | .branch _ => true
  | .choose c body none => c.isPlain && Step.arePlain body
  | .choose c body (some alternative) => c.isPlain && Step.arePlain body && Step.arePlain alternative

def Step.arePlain : List Step → Bool
  | [] => true
  | s :: ss => s.isPlain && Step.arePlain ss

end

mutual

/-- The string literals in a step. -/
def Step.strings : Step → List String
  | .assign _ e => e.strings
  | .branch _ => []
  | .choose c body none => c.strings ++ Step.stringsOf body
  | .choose c body (some alternative) => c.strings ++ Step.stringsOf body ++ Step.stringsOf alternative

def Step.stringsOf : List Step → List String
  | [] => []
  | s :: ss => s.strings ++ Step.stringsOf ss

end

namespace Line

/-- No content of the lines holds a line feed. -/
def AreInline (ls : List Line) : Prop :=
  ∀ l ∈ ls, isInline l.content = true

theorem areInline_append {ls ms : List Line} : AreInline (ls ++ ms) ↔ AreInline ls ∧ AreInline ms :=
  List.forall_mem_append

theorem areInline_cons {l : Line} {ls : List Line} :
    AreInline (l :: ls) ↔ isInline l.content = true ∧ AreInline ls :=
  List.forall_mem_cons

theorem areInline_nil : AreInline [] := by
  simp [AreInline]

theorem areInline_assignLines {x : String} {e : Expr} (hx : Token.isIdentifier x = true) (he : e.isPlain = true)
    (a : Address) : AreInline (assignLines a x e) ↔ ∀ s ∈ e.strings, isInline s = true := by
  have hname : isInline (codeName x) = true := by
    rw [isInline_codeName]
    exact Token.isInline_of_isIdentifier hx
  have hsign : isInline " := " = true := by decide
  rw [← Expr.isInline_code_iff he]
  cases e with
  | literal l => simp [assignLines, areInline_cons, areInline_nil, hname, Expr.code]
  | _ => simp [assignLines, areInline_cons, areInline_nil, hname, hsign]

theorem isInline_opening {c : Expr} : isInline ("IF " ++ c.code ++ " THEN BEGIN") = isInline c.code := by
  have hif : isInline "IF " = true := by decide
  have hthen : isInline " THEN BEGIN" = true := by decide
  simp [hif, hthen]

mutual

theorem areInline_lines : ∀ (s : Step) (a : Address), s.isPlain = true →
    (AreInline (s.lines a) ↔ ∀ t ∈ s.strings, isInline t = true)
  | .assign x e, a, h => by
    obtain ⟨hx, he⟩ : Token.isIdentifier x = true ∧ e.isPlain = true := by simpa [Step.isPlain] using h
    rw [Step.lines, areInline_assignLines hx he, Step.strings]
  | .branch word, a, _ => by
    have hword : isInline word.keyword = true := by cases word <;> decide
    simp [Step.lines, Step.strings, areInline_cons, areInline_nil, hword]
  | .choose c body none, a, h => by
    obtain ⟨hc, hbody⟩ : c.isPlain = true ∧ Step.arePlain body = true := by simpa [Step.isPlain] using h
    have hend : isInline "END" = true := by decide
    simp only [Step.lines, Step.strings, List.cons_append, areInline_cons, areInline_append, areInline_nil,
      areInline_linesFrom body a.child hbody, isInline_opening, Expr.isInline_code_iff hc, hend,
      List.forall_mem_append, and_true]
  | .choose c body (some alternative), a, h => by
    obtain ⟨⟨hc, hbody⟩, halternative⟩ :
        (c.isPlain = true ∧ Step.arePlain body = true) ∧ Step.arePlain alternative = true := by
      simpa [Step.isPlain] using h
    have hend : isInline "END" = true := by decide
    have helse : isInline "END ELSE BEGIN" = true := by decide
    simp only [Step.lines, Step.strings, List.cons_append, areInline_cons, areInline_append, areInline_nil,
      areInline_linesFrom body a.child hbody, areInline_linesFrom alternative _ halternative, isInline_opening,
      Expr.isInline_code_iff hc, hend, helse, List.forall_mem_append, and_true, true_and, and_assoc]

theorem areInline_linesFrom : ∀ (ss : List Step) (a : Address), Step.arePlain ss = true →
    (AreInline (linesFrom a ss) ↔ ∀ t ∈ Step.stringsOf ss, isInline t = true)
  | [], a, _ => by simp [linesFrom, Step.stringsOf, areInline_nil]
  | s :: ss, a, h => by
    obtain ⟨hs, hss⟩ : s.isPlain = true ∧ Step.arePlain ss = true := by simpa [Step.arePlain] using h
    rw [linesFrom, Step.stringsOf, areInline_append, areInline_lines s a hs, areInline_linesFrom ss a.next hss,
      List.forall_mem_append]

end

end Line

/-! ## Statements and programs -/

mutual

def Stmt.isPlain : Stmt → Bool
  | .assign x _ e => Token.isIdentifier x && e.isPlain
  | .branch _ => true
  | .cond c body none => c.isPlain && Block.isPlain body
  | .cond c body (some alternative) => c.isPlain && Block.isPlain body && Block.isPlain alternative
  | .switch e arms => e.isPlain && Arm.arePlain arms

def Block.isPlain : Block → Bool
  | [] => true
  | s :: ss => s.isPlain && Block.isPlain ss

def Arm.arePlain : List (Arm Stmt) → Bool
  | [] => true
  | ⟨guard, body⟩ :: arms => guard.isPlain && Block.isPlain body && Arm.arePlain arms

end

theorem Expr.isPlain_armCondition {subject guard : Expr} (hsubject : subject.isPlain = true)
    (hguard : guard.isPlain = true) : (subject.armCondition guard).isPlain = true := by
  rw [armCondition]
  split
  · rfl
  · split
    · exact hguard
    · simp [isPlain, hsubject, hguard]

theorem Step.arePlain_append {ss ts : List Step} :
    Step.arePlain (ss ++ ts) = (Step.arePlain ss && Step.arePlain ts) := by
  induction ss with
  | nil => simp [arePlain]
  | cons s ss ih => simp [arePlain, ih, Bool.and_assoc]

mutual

/-- The steps of a plain statement are plain. -/
theorem arePlain_step? : ∀ (s : Stmt), s.isPlain = true → Step.arePlain s.step?.toList = true
  | .assign x defines e, h => by
    simpa [Stmt.step?, Step.arePlain, Step.isPlain, Stmt.isPlain] using h
  | .branch word, _ => by simp [Stmt.step?, Step.arePlain, Step.isPlain]
  | .cond c body none, h => by
    obtain ⟨hc, hbody⟩ : c.isPlain = true ∧ Block.isPlain body = true := by simpa [Stmt.isPlain] using h
    simp [Stmt.step?, Step.arePlain, Step.isPlain, hc, arePlain_steps body hbody]
  | .cond c body (some alternative), h => by
    obtain ⟨⟨hc, hbody⟩, halternative⟩ :
        (c.isPlain = true ∧ Block.isPlain body = true) ∧ Block.isPlain alternative = true := by
      simpa [Stmt.isPlain] using h
    have hsteps := arePlain_steps alternative halternative
    rw [Stmt.step?]
    split <;> simp [Step.arePlain, Step.isPlain, hc, arePlain_steps body hbody, hsteps]
  | .switch e arms, h => by
    obtain ⟨he, harms⟩ : e.isPlain = true ∧ Arm.arePlain arms = true := by simpa [Stmt.isPlain] using h
    rw [Stmt.step?]
    exact arePlain_armStep? arms he harms

theorem arePlain_steps : ∀ (b : Block), Block.isPlain b = true → Step.arePlain (steps b) = true
  | [], _ => by simp [steps, Step.arePlain]
  | s :: ss, h => by
    obtain ⟨hs, hss⟩ : s.isPlain = true ∧ Block.isPlain ss = true := by simpa [Block.isPlain] using h
    simp [steps, Step.arePlain_append, arePlain_step? s hs, arePlain_steps ss hss]

theorem arePlain_armStep? : ∀ (arms : List (Arm Stmt)) {subject : Expr}, subject.isPlain = true →
    Arm.arePlain arms = true → Step.arePlain (armStep? subject arms).toList = true
  | [], subject, _, _ => by simp [armStep?, Step.arePlain]
  | ⟨guard, body⟩ :: arms, subject, hsubject, h => by
    obtain ⟨⟨hguard, hbody⟩, harms⟩ :
        (guard.isPlain = true ∧ Block.isPlain body = true) ∧ Arm.arePlain arms = true := by
      simpa [Arm.arePlain] using h
    have hcondition := Expr.isPlain_armCondition hsubject hguard
    have hrest := arePlain_armStep? arms hsubject harms
    cases hstep : armStep? subject arms with
    | none => simp [armStep?, hstep, Step.arePlain, Step.isPlain, hcondition, arePlain_steps body hbody]
    | some s =>
      rw [hstep] at hrest
      simpa [armStep?, hstep, Step.arePlain, Step.isPlain, hcondition, arePlain_steps body hbody] using hrest

end

namespace Program

/-- All names of the program look like names, and no operator in it holds a line feed. -/
def isPlain (p : Program) : Bool :=
  p.package.all Token.isIdentifier &&
    p.procedures.all fun q => Token.isIdentifier q.name && Block.isPlain q.body

/-- The string literals that are written out. -/
def strings (p : Program) : List String :=
  p.procedures.flatMap fun q => Step.stringsOf (steps q.body)

end Program

theorem areInline_procedureLines {qs : List Procedure} (a : Address)
    (h : ∀ q ∈ qs, Token.isIdentifier q.name = true ∧ Block.isPlain q.body = true) :
    Line.AreInline (procedureLines a qs) ↔
      ∀ s ∈ qs.flatMap fun q => Step.stringsOf (steps q.body), isInline s = true := by
  induction qs generalizing a with
  | nil => simp [procedureLines, Line.areInline_nil]
  | cons q qs ih =>
    obtain ⟨⟨hname, hbody⟩, hqs⟩ := List.forall_mem_cons.mp h
    have hcode : isInline (codeName q.name) = true := by
      rw [isInline_codeName]
      exact Token.isInline_of_isIdentifier hname
    have hopening : isInline "PROCEDURE " = true := by decide
    have hclosing : isInline "ENDPROC " = true := by decide
    simp only [procedureLines, Procedure.lines, List.cons_append, Line.areInline_cons, Line.areInline_append,
      Line.areInline_nil, Line.areInline_linesFrom _ a.child (arePlain_steps q.body hbody), ih a.next hqs,
      isInline_append, hcode, hopening, hclosing, Bool.and_self, List.flatMap_cons, List.forall_mem_append,
      true_and, and_true]

/-- The lines of a plain program hold a line feed only where a string literal does. -/
theorem Program.areInline_lines {p : Program} (h : p.isPlain = true) :
    Line.AreInline p.lines ↔ ∀ s ∈ p.strings, isInline s = true := by
  simp only [isPlain, Bool.and_eq_true, List.all_eq_true] at h
  exact areInline_procedureLines ⟨[1, 1]⟩ h.2

end AddressLines
