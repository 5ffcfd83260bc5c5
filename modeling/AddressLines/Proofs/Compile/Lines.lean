import AddressLines.Compile
import AddressLines.Proofs.Code.Text
import AddressLines.Proofs.Grammar.Sound

/-!
# The lines of compiled code

A program that comes from source text is plain, since its names and operators are tokens. So the code that compiling
gives is the header and the lines of the program, one for one, exactly when no string literal written out holds a
line feed. A string literal may hold one: it runs up to the next double quote, line ends included.
-/

namespace AddressLines

open Text

/-! ## Trees made of tokens are plain -/

section

variable {es ts : List Token}

theorem Expr.Yields.isPlain {e : Expr} (h : e.Yields es) (hes : ∀ t ∈ es, t.IsShaped) : e.isPlain = true := by
  induction h with
  | @name t x ht =>
    obtain ⟨hkind, rfl⟩ := ht
    exact (hes t (by simp)).identifier hkind
  | literal => rfl
  | @unary t op e es ht _ ih =>
    obtain ⟨hkind, rfl⟩ := ht
    obtain ⟨ht, hes⟩ := List.forall_mem_cons.mp hes
    have hop := Token.isInline_of_mem_operators (ht.operator hkind)
    simp only [Expr.isPlain, hop, ih hes, Bool.and_self]
  | binary _ _ _ ihl ihr =>
    obtain ⟨hls, hrs⟩ := List.forall_mem_append.mp hes
    simp only [Expr.isPlain, ihl hls, ihr (List.forall_mem_cons.mp hrs).2, Bool.and_self]

theorem Token.Is.isIdentifier {t : Token} {x : String} (h : t.Is .identifier x) (ht : t.IsShaped) :
    Token.isIdentifier x = true := by
  obtain ⟨hkind, rfl⟩ := h
  exact ht.identifier hkind

mutual

theorem Stmt.Yields.isPlain : ∀ {s : Stmt} {ts : List Token}, s.Yields ts → (∀ t ∈ ts, t.IsShaped) → s.isPlain = true
  | _, _, .assign hx _ he, hts => by
    simp only [List.forall_mem_cons] at hts
    simp only [Stmt.isPlain, hx.isIdentifier hts.1, he.isPlain hts.2.2, Bool.and_self]
  | _, _, .define hx _ he, hts => by
    simp only [List.forall_mem_cons] at hts
    simp only [Stmt.isPlain, hx.isIdentifier hts.1, he.isPlain hts.2.2, Bool.and_self]
  | _, _, .declare _ hx _ he, hts => by
    simp only [List.forall_mem_cons] at hts
    simp only [Stmt.isPlain, hx.isIdentifier hts.2.1, he.isPlain hts.2.2.2, Bool.and_self]
  | _, _, .branch _, _ => rfl
  | _, _, .cond _ hc hb, hts => by
    simp only [List.forall_mem_cons, List.forall_mem_append] at hts
    simp only [Stmt.isPlain, hc.isPlain hts.2.1, hb.isPlain hts.2.2, Bool.and_self]
  | _, _, .condElse _ hc hb _ ha, hts => by
    simp only [List.forall_mem_cons, List.forall_mem_append] at hts
    simp only [Stmt.isPlain, hc.isPlain hts.2.1, hb.isPlain hts.2.2.1, ha.isPlain hts.2.2.2.2, Bool.and_self]
  | _, _, .tagless _ _ ha _, hts => by
    simp only [List.forall_mem_cons, List.forall_mem_append] at hts
    simp only [Stmt.isPlain, Expr.isPlain, ha.arePlain hts.2.2.1, Bool.and_self]
  | _, _, .tagged _ he _ ha _, hts => by
    simp only [List.forall_mem_cons, List.forall_mem_append] at hts
    simp only [Stmt.isPlain, he.isPlain hts.2.1, ha.arePlain hts.2.2.2.1, Bool.and_self]

theorem Block.Yields.isPlain : ∀ {b : Block} {ts : List Token}, Block.Yields b ts → (∀ t ∈ ts, t.IsShaped) →
    Block.isPlain b = true
  | _, _, .nil, _ => rfl
  | _, _, .cons hs hss, hts => by
    rw [List.forall_mem_append] at hts
    simp only [Block.isPlain, hs.isPlain hts.1, hss.isPlain hts.2, Bool.and_self]

theorem Block.Braced.isPlain : ∀ {b : Block} {ts : List Token}, Block.Braced b ts → (∀ t ∈ ts, t.IsShaped) →
    Block.isPlain b = true
  | _, _, .mk _ hb _, hts => by
    simp only [List.forall_mem_cons, List.forall_mem_append] at hts
    exact hb.isPlain hts.2.1

theorem Arm.Yield.arePlain : ∀ {arms : List (Arm Stmt)} {ts : List Token}, Arm.Yield arms ts →
    (∀ t ∈ ts, t.IsShaped) → Arm.arePlain arms = true
  | _, _, .nil, _ => rfl
  | _, _, .guarded _ hg _ hb ha, hts => by
    simp only [List.forall_mem_cons, List.forall_mem_append] at hts
    simp only [Arm.arePlain, hg.isPlain hts.2.1, hb.isPlain hts.2.2.2.1, ha.arePlain hts.2.2.2.2, Bool.and_self]
  | _, _, .default _ _ hb ha, hts => by
    simp only [List.forall_mem_cons, List.forall_mem_append] at hts
    simp only [Arm.arePlain, Expr.isPlain, hb.isPlain hts.2.2.1, ha.arePlain hts.2.2.2, Bool.and_self]

end

theorem Procedure.Yield.arePlain {ps : List Procedure} (h : Procedure.Yield ps ts) (hts : ∀ t ∈ ts, t.IsShaped) :
    ∀ q ∈ ps, Token.isIdentifier q.name = true ∧ Block.isPlain q.body = true := by
  induction h with
  | nil => simp
  | cons hp _ ih =>
    obtain ⟨hp', hps⟩ := List.forall_mem_append.mp hts
    obtain ⟨_, hname, _, _, hb⟩ := hp
    simp only [List.forall_mem_cons] at hp'
    exact List.forall_mem_cons.mpr ⟨⟨hname.isIdentifier hp'.2.1, hb.isPlain hp'.2.2.2.2⟩, ih hps⟩

end

/-! ## Programs read from source text -/

theorem Token.isShaped_of_mem_kept {ts : List Token} (hts : ∀ t ∈ ts, t.IsShaped) : ∀ t ∈ kept ts, t.IsShaped :=
  fun t ht => hts t (List.mem_filter.mp ht |>.1)

/-- A package clause without faults gives a name, since no identifier is empty. -/
theorem Reader.packageClause_eq_some {r : Reader} {ts : List Token} (hts : ∀ t ∈ ts, t.IsShaped)
    (hnone : (r.packageClause ts).faults = []) :
    ∃ x, (r.packageClause ts).value = some x ∧ Token.isIdentifier x = true := by
  obtain ⟨t, name, x, -, hname, hvalue, hkept⟩ := packageClause_eq_of_faults_eq_nil hnone
  have hmem : name ∈ kept ts := by
    rw [hkept]
    simp
  have hx := hname.isIdentifier (Token.isShaped_of_mem_kept hts name hmem)
  have hne : x ≠ "" := by
    intro hempty
    rw [hempty] at hx
    exact absurd hx (by decide)
  exact ⟨x, by rw [hvalue, if_neg hne], hx⟩

theorem Reading.isPlain_of_isShaped {ts : List Token} (hts : ∀ t ∈ ts, t.IsShaped)
    (hnone : (Reading.ofTokens ts).program.faults = []) :
    (Reading.ofTokens ts).program.isPlain = true ∧ ∃ x, (Reading.ofTokens ts).program.package = some x := by
  have hclause : ((Reader.standard ts).packageClause ts).faults = [] := by
    revert hnone
    simp only [Reading.ofTokens]
    split
    · exact id
    · exact fun hnone => (List.append_eq_nil_iff.mp hnone).1
  obtain ⟨x, hvalue, hx⟩ := Reader.packageClause_eq_some hts hclause
  simp only [Reading.ofTokens, hvalue, List.append_eq_nil_iff] at hnone ⊢
  obtain ⟨ys, hprocedures, hkept⟩ := Reader.procedures_reads rfl _ hnone.2
  have hys : ∀ t ∈ ys, t.IsShaped := by
    intro t ht
    have hmem : t ∈ kept ((Reader.standard ts).packageClause ts).rest := by
      rw [hkept]
      exact List.mem_append_left _ ht
    exact hts t (((Reader.standard ts).packageClause ts).suffix.mem (List.mem_filter.mp hmem).1)
  have hplain := hprocedures.arePlain hys
  refine ⟨?_, x, rfl⟩
  simp only [Program.isPlain, Option.all_some, hx, Bool.true_and, List.all_eq_true, Bool.and_eq_true]
  exact hplain

/-- Code comes out only where the report has nothing to say. -/
theorem Reading.compile_eq_ok {r : Reading} {code : String} (h : r.compile = .ok code) :
    r.report.form = [] ∧ r.report.meaning = [] ∧ code = r.program.code := by
  rw [Reading.compile] at h
  split at h
  · rename_i hempty
    simp only [Report.isEmpty, Bool.and_eq_true, List.isEmpty_iff] at hempty
    exact ⟨hempty.1, hempty.2, (Except.ok.inj h).symm⟩
  · cases h

theorem compile_eq_ok {file source code : String} (h : compile file source = .ok code) :
    (read file source).program.faults = [] ∧ code = (read file source).program.code := by
  obtain ⟨hform, -, hcode⟩ := Reading.compile_eq_ok h
  exact ⟨hform, hcode⟩

/-- Compiled code is the header and the lines of the program, one behind the other. Each line is tabs, a marker, an
address with a point behind each number, a blank and what it says. They are the lines of the code exactly when no
string literal that is written out holds a line feed. -/
theorem compile_lines_iff {file source code : String} (h : compile file source = .ok code) :
    ∃ (x : String) (p : Program), p = (read file source).program ∧ p.package = some x ∧
      code = "Z1 " ++ x ++ "\n" ++ String.join (p.lines.map Line.text) ∧
      (∀ l ∈ p.lines, ∃ (k : Nat) (ns : List Nat), ns.length = k + 1 ∧ l.address = ⟨ns⟩ ∧
        (l.marker = 'Q' ∨ l.marker = 'A') ∧
        l.text = String.ofList (List.replicate k '\t') ++ l.marker.toString ++
          String.join (ns.map fun n => toString n ++ ".") ++ " " ++ l.content ++ "\n") ∧
      (lines code.toList = ("Z1 " ++ x ++ "\n").toList :: p.lines.map (·.text.toList) ↔
        ∀ s ∈ p.strings, '\n' ∉ s.toList) := by
  obtain ⟨hnone, rfl⟩ := compile_eq_ok h
  obtain ⟨hplain, x, hx⟩ :=
    Reading.isPlain_of_isShaped (fun t ht => Token.isShaped_of_mem_scan ht) hnone
  refine ⟨x, (read file source).program, rfl, hx, ?_, ?_, ?_⟩
  · rw [Program.code, Program.header, read, hx]
    rfl
  · intro l hl
    have hordered := Line.procedureLines_ordered (read file source).program.procedures 1
    obtain ⟨i, ms, -, -, hsegments⟩ := hordered.within l hl
    exact ⟨ms.length + 1, l.address.segments, by simp [hsegments], rfl, hordered.markers l hl,
      by simp [Line.text, Address.indent, Address.depth, Address.text, hsegments]⟩
  · have hrows := Program.lines_code_iff hplain
    have heq : (read file source).program.rows.map ended =
        ("Z1 " ++ x ++ "\n").toList :: (read file source).program.lines.map (·.text.toList) := by
      have hname : (read file source).program.packageName = x := by
        rw [Program.packageName, read, hx]
        rfl
      simp [Program.rows, hname, ended, Line.toList_text]
    simp only [isInline_iff] at hrows
    rw [← heq]
    exact hrows

/-- A procedure that gives `s` a string literal. -/
def literalSource (literal : String) : String :=
  "package p;func f()\x7bs:=\"" ++ literal ++ "\"\x7d"

def literalCode (literal : String) : String :=
  "Z1 p\n\tQ1.1. PROCEDURE &f&\n\t\tQ1.1.1. &s&\n\t\tA1.1.1. \"" ++ literal ++ "\"\n\tQ1.1. ENDPROC &f&\n"

theorem compile_of_toOption {file source code : String} (h : (compile file source).toOption = some code) :
    compile file source = .ok code := by
  cases hcompile : compile file source with
  | error report => simp [hcompile, Except.toOption] at h
  | ok code' => simpa [hcompile, Except.toOption] using h

theorem compile_lines_literal :
    compile unnamedFile (literalSource "a\\n b") = .ok (literalCode "a\\n b") ∧
      lines (literalCode "a\\n b").toList = "Z1 p\n".toList ::
        (read unnamedFile (literalSource "a\\n b")).program.lines.map (·.text.toList) := by
  have hcompile : compile unnamedFile (literalSource "a\\n b") = .ok (literalCode "a\\n b") :=
    compile_of_toOption (by decide +kernel)
  obtain ⟨x, p, rfl, hx, -, -, hlines⟩ := compile_lines_iff hcompile
  obtain rfl : "p" = x := Option.some.inj (hx ▸ by decide +kernel)
  exact ⟨hcompile, hlines.mpr (by decide +kernel)⟩

/-- A line feed in a literal is written out as it is, and the rest of the literal stands on a line that has no marker
and no address. -/
theorem compile_lines_broken :
    compile unnamedFile (literalSource "a\nb") = .ok (literalCode "a\nb") ∧
      "b\"\n".toList ∈ lines (literalCode "a\nb").toList ∧
      lines (literalCode "a\nb").toList ≠ "Z1 p\n".toList ::
        (read unnamedFile (literalSource "a\nb")).program.lines.map (·.text.toList) := by
  refine ⟨compile_of_toOption ?_, ?_, ?_⟩ <;> decide +kernel

end AddressLines
