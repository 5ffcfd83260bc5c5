import AddressLines.Proofs.Compile.Layout
import AddressLines.Proofs.Grammar.Faults
import AddressLines.Proofs.Text.Lines
import AddressLines.Proofs.Token.Comment
import AddressLines.Proofs.Token.Literal
import AddressLines.Proofs.Typing.Faults

/-!
# Reports are lists of lines

Each fault of a source text takes one line of its report: no message holds a carriage return or a line feed, so the
lines of the report are a title and one line for each fault of form, then a title and one line for each fault of
meaning.

Messages quote what stands in the source. A token that is quoted where another one was expected has its line ends
replaced; a name has none. The one message that shows a token as it is, about a literal without a value, is never sent
for the tokens of a source text.
-/

namespace AddressLines

open Text

/-! ## Messages on one line -/

/-- The text holds no line end. -/
def Text.isUnbroken (s : String) : Bool :=
  s.toList.all (!Text.isLineEnd ·)

@[simp] theorem Text.isUnbroken_append (s t : String) : isUnbroken (s ++ t) = (isUnbroken s && isUnbroken t) := by
  rw [isUnbroken, String.toList_append, List.all_append]
  rfl

theorem Text.isUnbroken_iff {s : String} : isUnbroken s = true ↔ '\r' ∉ s.toList ∧ '\n' ∉ s.toList := by
  rw [isUnbroken, List.all_eq_true]
  constructor
  · intro hall
    exact ⟨fun hmem => absurd (hall _ hmem) (by decide), fun hmem => absurd (hall _ hmem) (by decide)⟩
  · intro hnot c hc
    have hreturn : c ≠ '\r' := fun h => hnot.1 (h ▸ hc)
    have hfeed : c ≠ '\n' := fun h => hnot.2 (h ▸ hc)
    simp [Text.isLineEnd, hreturn, hfeed]

/-- The texts that a message shows among its own words. -/
def Fault.Cause.parts : Fault.Cause → List String
  | wrongKind expected found kind => [expected, found, kind]
  | badLiteral text => [text]
  | unexpected expected found => [expected, found]
  | alreadyDefined x | notDefined x => [x]
  | wrongAssignment x expected received => [received, x, expected]
  | mismatchedTypes left right => [left, right]
  | badCondition received => [received]

theorem Fault.Cause.isUnbroken_message {cause : Fault.Cause} (h : ∀ s ∈ cause.parts, isUnbroken s = true) :
    isUnbroken cause.message = true := by
  cases cause with
  | wrongKind expected found kind =>
    obtain ⟨hexpected, hfound, hkind⟩ : _ ∧ _ ∧ _ := by simpa [parts] using h
    show isUnbroken (expected ++ " expected, got '" ++ found ++ "' of type '" ++ kind ++ "'") = true
    simp only [isUnbroken_append, hexpected, hfound, hkind]
    decide +kernel
  | badLiteral text =>
    have htext : isUnbroken text = true := by simpa [parts] using h
    show isUnbroken ("Unexpected literal '" ++ text ++ "'") = true
    simp only [isUnbroken_append, htext]
    decide +kernel
  | unexpected expected found =>
    obtain ⟨hexpected, hfound⟩ : _ ∧ _ := by simpa [parts] using h
    show isUnbroken (expected ++ " expected, got '" ++ found ++ "'") = true
    simp only [isUnbroken_append, hexpected, hfound]
    decide +kernel
  | alreadyDefined x =>
    have hx : isUnbroken x = true := by simpa [parts] using h
    show isUnbroken ("Variable '" ++ x ++ "' is already defined") = true
    simp only [isUnbroken_append, hx]
    decide +kernel
  | notDefined x =>
    have hx : isUnbroken x = true := by simpa [parts] using h
    show isUnbroken ("Variable '" ++ x ++ "' is not defined") = true
    simp only [isUnbroken_append, hx]
    decide +kernel
  | wrongAssignment x expected received =>
    obtain ⟨hreceived, hx, hexpected⟩ : _ ∧ _ ∧ _ := by simpa [parts] using h
    show isUnbroken ("Cannot use type " ++ received ++ " in variable '" ++ x ++ "' of type " ++ expected) = true
    simp only [isUnbroken_append, hreceived, hx, hexpected]
    decide +kernel
  | mismatchedTypes left right =>
    obtain ⟨hleft, hright⟩ : _ ∧ _ := by simpa [parts] using h
    show isUnbroken ("Mismatched types: " ++ left ++ " and " ++ right) = true
    simp only [isUnbroken_append, hleft, hright]
    decide +kernel
  | badCondition received =>
    have hreceived : isUnbroken received = true := by simpa [parts] using h
    show isUnbroken ("Non-bool type " ++ received ++ " used as condition") = true
    simp only [isUnbroken_append, hreceived]
    decide +kernel

/-! ## Texts out of a source -/

theorem Fault.isUnbroken_quote (text : String) : isUnbroken (Fault.quote text) = true := by
  rw [isUnbroken, Fault.quote, String.toList_join, List.all_eq_true]
  intro c hc
  obtain ⟨piece, hpiece, hc⟩ := List.mem_flatMap.mp hc
  obtain ⟨d, -, rfl⟩ := List.mem_map.mp hpiece
  split_ifs at hc with hend
  · exact List.all_eq_true.mp (show isUnbroken Fault.endOfFile = true by decide) c hc
  · obtain rfl : c = d := by simpa using hc
    simpa [Text.isLineEnd, and_comm] using hend

theorem isUnbroken_foundText (us : List Token) : isUnbroken (foundText us) = true := by
  cases us with
  | nil => decide
  | cons t us => exact Fault.isUnbroken_quote t.text

theorem Token.Kind.isUnbroken_name (kind : Token.Kind) : isUnbroken kind.name = true := by
  cases kind <;> decide

theorem Ty.isUnbroken_name (τ : Ty) : isUnbroken τ.name = true := by
  cases τ <;> decide

variable {file source : String}

theorem isUnbroken_of_spelled {x : String} (h : Spelled (Token.scan file source) x) : isUnbroken x = true := by
  rcases h with rfl | ⟨t, ht, hkind, rfl⟩
  · decide
  · have hname := (Token.isShaped_of_mem_scan ht).identifier hkind
    exact isUnbroken_iff.mpr ⟨Token.notMem_of_isIdentifier hname (by decide),
      Token.notMem_of_isIdentifier hname (by decide)⟩

/-- What reading reports about the tokens of a source text is said on one line. -/
theorem Reader.FaultAt.isUnbroken_message {r : Reader} {us : List Token} {f : Fault} (h : r.FaultAt us f)
    (hus : us <:+ Token.scan file source) : isUnbroken f.message = true := by
  refine Fault.Cause.isUnbroken_message ?_
  cases h with
  | @unexpected expected _ hexpected =>
    have hasked : ∀ text ∈ expectations, isUnbroken text = true := by decide +kernel
    simp [Reader.unexpected, Fault.Cause.parts, hasked expected hexpected, isUnbroken_foundText]
  | @wrongKind t us =>
    have hasked : isUnbroken "Identifier" = true := by decide
    simp [Fault.Cause.parts, hasked, Fault.isUnbroken_quote, t.kind.isUnbroken_name]
  | @badLiteral t us hkind hnone =>
    have ht : t ∈ Token.scan file source := hus.subset (List.mem_cons_self ..)
    have hvalue := Token.isSome_literal_of_mem_scan ht hkind
    simp [hnone] at hvalue

/-- What checking reports about names out of a source text is said on one line. -/
theorem Checker.About.isUnbroken_message {xs : List String} {f : Fault} (h : Checker.About xs f)
    (hxs : AreSpelled (Token.scan file source) xs) : isUnbroken f.message = true := by
  have hnames : ∀ x ∈ xs, isUnbroken x = true := fun x hx => isUnbroken_of_spelled (hxs x hx)
  refine Fault.Cause.isUnbroken_message ?_
  cases h with
  | alreadyDefined hx => simp [Fault.Cause.parts, hnames _ hx]
  | notDefined hx => simp [Fault.Cause.parts, hnames _ hx]
  | wrongAssignment expected received hx => simp [Fault.Cause.parts, hnames _ hx, Ty.isUnbroken_name]
  | mismatchedTypes left right => simp [Fault.Cause.parts, Ty.isUnbroken_name]
  | badCondition τ => simp [Fault.Cause.parts, Ty.isUnbroken_name]

/-- Each fault of a source text is reported on one line. -/
theorem Report.isUnbroken_message_of_mem {f : Fault}
    (hf : f ∈ (read file source).report.form ++ (read file source).report.meaning) : isUnbroken f.message = true := by
  rcases List.mem_append.mp hf with hform | hmeaning
  · obtain ⟨rest, hlocated⟩ := Reading.located (Token.scan file source)
    obtain ⟨us, hus, hfault⟩ := hlocated.mem hform
    exact hfault.isUnbroken_message hus
  · simp only [Reading.report] at hmeaning
    split_ifs at hmeaning
    · exact (Program.about_of_mem_check hmeaning).isUnbroken_message (Reading.areSpelled_names _)
    · simp at hmeaning

/-! ## The lines of a report -/

/-- A title and a line for each fault, and nothing if there are none. -/
def Fault.rows (title : String) (faults : List Fault) : List String :=
  if faults.isEmpty then [] else title :: faults.map fun f => "\t" ++ f.message

/-- The lines of a report without their line feeds. -/
def Report.rows (d : Report) : List String :=
  Fault.rows "Syntax errors:" d.form ++ Fault.rows "Semantic errors:" d.meaning

theorem Fault.toList_listing (faults : List Fault) :
    (listing faults).toList = (faults.map fun f => ended ("\t" ++ f.message).toList).flatten := by
  have hline : ∀ f : Fault, ("\t" ++ f.message ++ "\n").toList = ended ("\t" ++ f.message).toList := by
    intro f
    rw [String.toList_append, ended]
    rfl
  rw [listing, String.toList_join, List.flatMap_def, List.map_map]
  simp only [Function.comp_def, hline]

theorem Fault.toList_rows {heading title : String} (hheading : heading.toList = ended title.toList)
    (faults : List Fault) :
    (if faults.isEmpty then "" else heading ++ listing faults).toList =
      ((rows title faults).map fun row => ended row.toList).flatten := by
  rw [rows]
  split_ifs
  · rfl
  · rw [String.toList_append, hheading, toList_listing, List.map_cons, List.flatten_cons, List.map_map]
    rfl

theorem Report.toList_text (d : Report) : d.text.toList = (d.rows.map fun row => ended row.toList).flatten := by
  have hform : "Syntax errors:\n".toList = ended "Syntax errors:".toList := by decide +kernel
  have hmeaning : "Semantic errors:\n".toList = ended "Semantic errors:".toList := by decide +kernel
  rw [text, String.toList_append, Fault.toList_rows hform, Fault.toList_rows hmeaning, rows, List.map_append,
    List.flatten_append]

theorem Fault.newline_notMem_rows {title : String} (htitle : '\n' ∉ title.toList) {faults : List Fault}
    (h : ∀ f ∈ faults, '\n' ∉ f.message.toList) {row : String} (hrow : row ∈ rows title faults) :
    '\n' ∉ row.toList := by
  rw [rows] at hrow
  split_ifs at hrow
  · simp at hrow
  · rcases List.mem_cons.mp hrow with rfl | hrow
    · exact htitle
    · obtain ⟨f, hf, rfl⟩ := List.mem_map.mp hrow
      rw [String.toList_append, List.mem_append, not_or]
      exact ⟨by decide, h f hf⟩

/-- A report whose messages are on one line each has the lines that it is made of. -/
theorem Report.lines_text {d : Report} (h : ∀ f ∈ d.form ++ d.meaning, '\n' ∉ f.message.toList) :
    lines d.text.toList = d.rows.map fun row => ended row.toList := by
  have hrows : ∀ row ∈ d.rows, '\n' ∉ row.toList := by
    intro row hrow
    rcases List.mem_append.mp hrow with hform | hmeaning
    · exact Fault.newline_notMem_rows (by decide) (fun f hf => h f (List.mem_append_left _ hf)) hform
    · exact Fault.newline_notMem_rows (by decide) (fun f hf => h f (List.mem_append_right _ hf)) hmeaning
  have hlines := (lines_flatten_iff (d.rows.map String.toList)).mpr (by simpa using hrows)
  rw [List.map_map] at hlines
  rw [toList_text]
  exact hlines

/-! ## Reports whatever the file is -/

namespace Token

theorem lexemesFrom_kindAndText (file file' : String) (before : Option Char) (offset : Nat) (cs : List Char) :
    (lexemesFrom file before offset cs).map kindAndText = (lexemesFrom file' before offset cs).map kindAndText := by
  fun_induction lexemesFrom file before offset cs with
  | case1 => rw [lexemesFrom]
  | case2 before offset c rest hnone ih => rw [lexemesFrom_of_none hnone, ih]
  | case3 before offset c rest kind hkind n text stop ih =>
    rw [lexemesFrom_of_some hkind, List.map_cons, ih]
    rfl

/-- The name of the file shows in the spans of the tokens only. -/
theorem scan_kindAndText (file file' source : String) :
    (scan file source).map kindAndText = (scan file' source).map kindAndText := by
  have hfilter : ∀ ts : List Token, (ts.filter (·.kind ≠ .comment)).map kindAndText =
      (ts.map kindAndText).filter (·.1 ≠ .comment) := by
    intro ts
    rw [List.filter_map]
    rfl
  rw [scan, scan, scanFrom_eq_filter, scanFrom_eq_filter, hfilter, hfilter, lexemesFrom_kindAndText file file']

end Token

theorem compile_eq_error {d : Report} (h : compile file source = .error d) : d = (read file source).report := by
  rw [compile, Reading.compile] at h
  split_ifs at h
  exact (Except.error.inj h).symm

/-- A source text is read alike under every file name. -/
theorem read_alike (file file' source : String) : (read file source).Alike (read file' source) :=
  (Relaid.of_kindAndText (Token.scan_kindAndText file file' source)).behind.alike

/-- The code is the same for every file name. -/
theorem compile_ok_of_file {code : String} (h : compile file source = .ok code) (file' : String) :
    compile file' source = .ok code := by
  rcases (read_alike file file' source).compile with ⟨code', hfile, hother⟩ | ⟨d, e, hfile, -, -⟩
  · obtain rfl : code = code' := Except.ok.inj (h.symm.trans hfile)
    exact hother
  · cases h.symm.trans hfile

/-- So is the text of the report. -/
theorem compile_error_of_file {d : Report} (h : compile file source = .error d) (file' : String) :
    ∃ e, compile file' source = .error e ∧ e.text = d.text := by
  rcases (read_alike file file' source).compile with ⟨code, hfile, -⟩ | ⟨d', e, hfile, hother, htext⟩
  · cases h.symm.trans hfile
  · obtain rfl : d = d' := Except.error.inj (h.symm.trans hfile)
    exact ⟨e, hother, htext.symm⟩

theorem codeOrReport_of_compile {d : Report} (h : compile file source = .error d) : codeOrReport source = d.text := by
  obtain ⟨e, he, htext⟩ := compile_error_of_file h unnamedFile
  rw [codeOrReport, he]
  exact htext

/-- If a source text does not compile, no message about it holds a carriage return or a line feed, and the lines of
what stands for its code are the title and the messages of its faults of form, if it has any, and then those of its
faults of meaning. -/
theorem compile_error_lines {d : Report} (h : compile file source = .error d) :
    (∀ f ∈ d.form ++ d.meaning, '\r' ∉ f.message.toList ∧ '\n' ∉ f.message.toList) ∧
      lines (codeOrReport source).toList = d.rows.map fun row => ended row.toList := by
  have hmessages : ∀ f ∈ d.form ++ d.meaning, '\r' ∉ f.message.toList ∧ '\n' ∉ f.message.toList := by
    intro f hf
    rw [compile_eq_error h] at hf
    exact isUnbroken_iff.mp (Report.isUnbroken_message_of_mem hf)
  refine ⟨hmessages, ?_⟩
  rw [codeOrReport_of_compile h]
  exact Report.lines_text fun f hf => (hmessages f hf).2

/-- A string over two lines where a statement should end, and a variable that is not defined. -/
def quotedSource : String :=
  "package p\nfunc f()\x7bx := 1 \"a\r\nb\"\ny = x\x7d"

theorem compile_error_lines_quoted :
    ∃ d, compile "quoted" quotedSource = .error d ∧
      d.rows = ["Syntax errors:", "\t';' or a new line expected, got '\"aend of fileend of fileb\"'",
        "\tStatement expected, got '\"aend of fileend of fileb\"'", "Semantic errors:",
        "\tVariable 'y' is not defined"] ∧
      lines (codeOrReport quotedSource).toList = d.rows.map fun row => ended row.toList := by
  have herror : compile "quoted" quotedSource = .error (read "quoted" quotedSource).report := by
    rw [compile, Reading.compile, if_neg]
    decide +kernel
  exact ⟨_, herror, by decide +kernel, (compile_error_lines herror).2⟩

end AddressLines
