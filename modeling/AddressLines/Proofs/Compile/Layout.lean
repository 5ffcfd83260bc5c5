import AddressLines.Compile
import AddressLines.Proofs.Grammar.Layout

/-!
# What compiling depends on

Positions are kept for the reader of a report and decide nothing. Tokens with the same kinds and texts compile to the
same code or to reports of the same text, whichever file they come from and wherever they stand in it; so comments and
blanks between tokens have no influence, and neither has the name of the file.
-/

namespace AddressLines

/-! ## Readings that are alike -/

theorem Fault.listing_congr {fs gs : List Fault} (h : fs.map Fault.cause = gs.map Fault.cause) :
    Fault.listing fs = Fault.listing gs := by
  have hmap := congrArg (List.map fun c : Fault.Cause => "\t" ++ c.message ++ "\n") h
  rw [List.map_map, List.map_map] at hmap
  exact congrArg String.join hmap

theorem Fault.isEmpty_congr {fs gs : List Fault} (h : fs.map Fault.cause = gs.map Fault.cause) :
    fs.isEmpty = gs.isEmpty := by
  have hempty := congrArg List.isEmpty h
  rwa [List.isEmpty_map, List.isEmpty_map] at hempty

namespace Reading

variable {a b : Reading}

theorem Alike.check_eq (h : a.Alike b) : a.program.check = b.program.check := by
  rw [Program.check, Program.check, h.procedures]

theorem Alike.meaning_eq (h : a.Alike b) : a.report.meaning = b.report.meaning := by
  simp only [report, h.completed, h.check_eq]

theorem Alike.code_eq (h : a.Alike b) : a.program.code = b.program.code := by
  simp only [Program.code, Program.header, Program.lines, h.package, h.procedures]

theorem Alike.isEmpty_report (h : a.Alike b) : a.report.isEmpty = b.report.isEmpty := by
  rw [Report.isEmpty, Report.isEmpty, h.meaning_eq]
  exact congrArg (· && _) (Fault.isEmpty_congr h.causes)

theorem Alike.report_text (h : a.Alike b) : a.report.text = b.report.text := by
  have hempty : a.report.form.isEmpty = b.report.form.isEmpty := Fault.isEmpty_congr h.causes
  have hlisting : Fault.listing a.report.form = Fault.listing b.report.form := Fault.listing_congr h.causes
  rw [Report.text, Report.text, h.meaning_eq, hempty, hlisting]

/-- Both readings give the same code, or both give a report of the same text. -/
theorem Alike.compile (h : a.Alike b) :
    (∃ code, a.compile = .ok code ∧ b.compile = .ok code) ∨
      ∃ d e, a.compile = .error d ∧ b.compile = .error e ∧ d.text = e.text := by
  rw [Reading.compile, Reading.compile, h.isEmpty_report]
  split_ifs
  · exact .inl ⟨b.program.code, by rw [h.code_eq], rfl⟩
  · exact .inr ⟨a.report, b.report, rfl, rfl, h.report_text⟩

end Reading

/-! ## Tokens that differ in their places -/

/-- What reading sees of a token. -/
def Token.kindAndText (t : Token) : Token.Kind × String :=
  (t.kind, t.text)

theorem Relaid.of_kindAndText {ts us : List Token} (h : ts.map Token.kindAndText = us.map Token.kindAndText) :
    Relaid ts us := by
  induction ts generalizing us with
  | nil =>
    obtain rfl := List.map_eq_nil_iff.mp h.symm
    exact .nil
  | cons t ts ih =>
    cases us with
    | nil => cases h
    | cons u us =>
      rw [List.map_cons, List.map_cons, List.cons.injEq] at h
      have htoken : t.Agrees u := ⟨congrArg Prod.fst h.1, congrArg Prod.snd h.1⟩
      have hrest := ih h.2
      cases hend : t.isLineEnd with
      | false => exact .token hend htoken hrest
      | true => exact .ends hend (htoken.isLineEnd_eq ▸ hend) (congrArg Fault.quote htoken.2) hrest.behind

/-- Tokens with the same kinds and texts are read as the same program with the same faults, positions aside. Sources
with such tokens compile to the same code or to reports of the same text. -/
theorem compile_congr_kindAndText :
    (∀ ts us : List Token, ts.map Token.kindAndText = us.map Token.kindAndText →
      (Reading.ofTokens ts).Alike (Reading.ofTokens us)) ∧
    ∀ file file' source source' : String,
      (Token.scan file source).map Token.kindAndText = (Token.scan file' source').map Token.kindAndText →
        (∃ code, compile file source = .ok code ∧ compile file' source' = .ok code) ∨
          ∃ d e, compile file source = .error d ∧ compile file' source' = .error e ∧ d.text = e.text := by
  have halike : ∀ ts us : List Token, ts.map Token.kindAndText = us.map Token.kindAndText →
      (Reading.ofTokens ts).Alike (Reading.ofTokens us) :=
    fun ts us h => (Relaid.of_kindAndText h).behind.alike
  exact ⟨halike, fun file file' source source' h => (halike _ _ h).compile⟩

/-- A value is missing in it, and a variable. -/
def terseSource : String :=
  "package p\nfunc f()\x7ba=b;c:=\n\x7d"

/-- The same with comments and blanks. -/
def commentedSource : String :=
  "package p // the name\nfunc f( ) \x7b /* a\nblock */ a = b;\tc := // none\x7d\n\x7d"

theorem compile_congr_commented :
    (Token.scan "a" terseSource).map Token.kindAndText = (Token.scan "b" commentedSource).map Token.kindAndText ∧
      (Reading.ofTokens (Token.scan "a" terseSource)).Alike (Reading.ofTokens (Token.scan "b" commentedSource)) ∧
      ∃ d e, compile "a" terseSource = .error d ∧ compile "b" commentedSource = .error e ∧ d.text = e.text := by
  have htokens : (Token.scan "a" terseSource).map Token.kindAndText =
      (Token.scan "b" commentedSource).map Token.kindAndText := by decide +kernel
  have hfaulty : (compile "a" terseSource).toOption = none := by decide +kernel
  refine ⟨htokens, compile_congr_kindAndText.1 _ _ htokens, ?_⟩
  rcases compile_congr_kindAndText.2 "a" "b" terseSource commentedSource htokens with ⟨code, hcode, -⟩ | hreport
  · simp [hcode, Except.toOption] at hfaulty
  · exact hreport

end AddressLines
