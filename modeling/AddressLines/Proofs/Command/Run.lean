import AddressLines.Command.Run
import AddressLines.Proofs.Command.FileTree
import AddressLines.Proofs.Command.Printed
import AddressLines.Proofs.Compile.Lines
import AddressLines.Proofs.Compile.Report

/-!
# Runs agree with compiling

A run reads its own source and goes through the stages itself, under the name of the input file, and it has a gate of
its own between what is wrong and the code. In every host that is what compiling the source gives (`Host.translate_eq`).

Names of files show in positions only, and no position shows in the tokens, the tree, the report or the code that a run
prints. So a run in a file tree prints what compiling says under any name, and it writes nothing before it has a program
without faults (`run_agrees`).
-/

namespace AddressLines

theorem Reading.Alike.dump_eq {a b : Reading} (h : a.Alike b) : a.program.dump = b.program.dump := by
  unfold Program.dump
  rw [h.package, h.procedures, Fault.listing_congr h.causes]

namespace Command

variable {source code : String} {o : Options} {report : Report}

/-! ## The gate -/

/-- Behind what is printed first, a run in any host goes on with what compiling gives: it delivers the code, or prints
the report. -/
theorem Host.translate_eq {m : Type → Type} [Monad m] (h : Host m) (o : Options) (source : String) :
    h.translate o source = (do
      h.printIf o.tokens ((Token.scan o.sourceName source).map fun t => t.listing ++ "\n")
      h.printIf o.tree [(read o.sourceName source).program.dump ++ "\n"]
      match compile o.sourceName source with
      | .ok code => h.deliver o.output code
      | .error report => do
        h.print report.text
        h.printIf o.verbose (report.form.map (excerpt source o.input))
        return 1) := by
  by_cases hempty : (read o.sourceName source).report.isEmpty = true
  · have hok : compile o.sourceName source = .ok (read o.sourceName source).program.code := if_pos hempty
    rw [hok, translate]
    simp only [read] at hempty ⊢
    simp only [if_pos hempty]
  · have herror : compile o.sourceName source = .error (read o.sourceName source).report := if_neg hempty
    rw [herror, translate]
    simp only [read] at hempty ⊢
    simp only [if_neg hempty]

/-! ## What is printed -/

/-- What a run prints first: the tokens, one on each line, and the tree, if they are asked for. -/
def Options.Previews (o : Options) (source text : String) : Prop :=
  ∃ listing, (if o.tokens then ShownInTurn Token.Shows (Token.scan unnamedFile source) listing else listing = "") ∧
    text = listing ++ if o.tree then (read unnamedFile source).program.dump ++ "\n" else ""

/-- What a run prints behind a report: an excerpt for each fault of form, if they are asked for. -/
def Options.ShowsFaults (o : Options) (source text : String) : Prop :=
  if o.verbose then ShownInTurn (Fault.Excerpted source o.input) (read o.sourceName source).program.faults text
  else text = ""

theorem listings_eq (file file' source : String) :
    ((Token.scan file source).map fun t => t.listing ++ "\n") =
      (Token.scan file' source).map fun t => t.listing ++ "\n" := by
  have hmap := congrArg (List.map fun kt : Token.Kind × String => (Token.mk kt.1 kt.2 ⟨"", 0, 0⟩).listing ++ "\n")
    (Token.scan_kindAndText file file' source)
  rw [List.map_map, List.map_map] at hmap
  exact hmap

/-- The text that is printed first. -/
def Options.preview (o : Options) (source : String) : String :=
  (if o.tokens then String.join ((Token.scan o.sourceName source).map fun t => t.listing ++ "\n") else "") ++
    if o.tree then (read o.sourceName source).program.dump ++ "\n" else ""

theorem Options.previews_preview (o : Options) (source : String) : o.Previews source (o.preview source) := by
  rw [preview, listings_eq o.sourceName unnamedFile, (read_alike o.sourceName unnamedFile source).dump_eq]
  refine ⟨_, ?_, rfl⟩
  cases o.tokens with
  | false => rfl
  | true => exact shownInTurn_map Token.shows_listing _

/-- The excerpts that are printed behind a report. -/
def Options.excerpts (o : Options) (source : String) : String :=
  if o.verbose then String.join ((read o.sourceName source).program.faults.map (excerpt source o.input)) else ""

theorem Options.showsFaults_excerpts (o : Options) (source : String) : o.ShowsFaults source (o.excerpts source) := by
  rw [ShowsFaults, excerpts]
  cases o.verbose with
  | false => rfl
  | true => exact shownInTurn_map (excerpt_excerpted source o.input) _

/-! ## Steps in a file tree -/

theorem run_bind {α : Type} {x : StateM Scene α} {f : α → StateM Scene Nat} {scene next : Scene} {a : α}
    (h : x.run scene = (a, next)) : (x >>= f).run scene = (f a).run next := by
  rw [StateT.run_bind, h]
  rfl

theorem forM_print (texts : List String) (scene : Scene) :
    (texts.forM Host.files.print).run scene = ((), ⟨scene.printed ++ String.join texts, scene.files⟩) := by
  induction texts generalizing scene with
  | nil =>
    change ((), scene) = ((), Scene.mk (scene.printed ++ "") scene.files)
    rw [String.append_empty]
  | cons text texts ih =>
    have hfirst : ((text :: texts).forM Host.files.print).run scene =
      (texts.forM Host.files.print).run ⟨scene.printed ++ text, scene.files⟩ := rfl
    rw [hfirst, ih, String.append_assoc, String.join_cons]

theorem printIf_files (asked : Bool) (texts : List String) (scene : Scene) :
    (Host.files.printIf asked texts).run scene =
      ((), ⟨scene.printed ++ if asked then String.join texts else "", scene.files⟩) := by
  cases asked with
  | false => exact forM_print [] scene
  | true => exact forM_print texts scene

theorem deliver_files_none (scene : Scene) :
    (Host.files.deliver none code).run scene = (0, ⟨scene.printed ++ code, scene.files⟩) :=
  rfl

theorem deliver_files_some {path : String} {scene : Scene} {after : FileTree}
    (h : scene.files.write path code = .ok after) :
    (Host.files.deliver (some path) code).run scene = (0, ⟨scene.printed, after⟩) := by
  have hwrite : (Host.files.write path code).run scene = (.ok (), ⟨scene.printed, after⟩) := by
    simp only [Host.files, StateT.run, h]
  rw [Host.deliver, run_bind hwrite]
  rfl

/-! ## Whole runs -/

/-- A run has printed the tokens and the tree that are asked for when it comes to its gate. -/
theorem preview_files (o : Options) (source : String) (t : FileTree) (y : StateM Scene Nat) :
    StateT.run (do
      Host.files.printIf o.tokens ((Token.scan o.sourceName source).map fun t => t.listing ++ "\n")
      Host.files.printIf o.tree [(read o.sourceName source).program.dump ++ "\n"]
      y) ⟨"", t⟩ = y.run ⟨o.preview source, t⟩ := by
  have hone (s : String) : String.join [s] = s := by rw [String.join_cons, String.join_nil, String.append_empty]
  rw [run_bind (printIf_files ..), run_bind (printIf_files ..), String.empty_append, hone, Options.preview]

theorem translate_files_of_ok (h : compile o.sourceName source = .ok code) (t : FileTree) :
    (Host.files.translate o source).run ⟨"", t⟩ = (Host.files.deliver o.output code).run ⟨o.preview source, t⟩ := by
  rw [Host.translate_eq, h, preview_files]

theorem translate_files_of_error (h : compile o.sourceName source = .error report) (t : FileTree) :
    (Host.files.translate o source).run ⟨"", t⟩ =
      (1, ⟨o.preview source ++ report.text ++ o.excerpts source, t⟩) := by
  have hform : report.form = (read o.sourceName source).program.faults := by
    rw [compile_eq_error h]
    rfl
  have hprint : (Host.files.print report.text).run ⟨o.preview source, t⟩ =
    ((), ⟨o.preview source ++ report.text, t⟩) := rfl
  rw [Host.translate_eq, h, preview_files, run_bind hprint, run_bind (printIf_files ..), hform]
  rfl

theorem fromUTF8?_toUTF8 (s : String) : String.fromUTF8? s.toUTF8 = some s := by
  have hvalid : s.toUTF8.IsValidUTF8 := s.isValidUTF8
  rw [String.fromUTF8?, dif_pos hvalid]
  rfl

theorem perform_files {t : FileTree} (hread : t.read? o.input = some source.toUTF8) :
    (Host.files.perform o).run ⟨"", t⟩ = (Host.files.translate o source).run ⟨"", t⟩ := by
  have hsource : (Host.files.read? o.input).run ⟨"", t⟩ = (some source.toUTF8, ⟨"", t⟩) := by
    simp only [Host.files, StateT.run, hread]
  rw [Host.perform, run_bind hsource, Option.bind_some, fromUTF8?_toUTF8]

/-- Arguments that ask for options and an input that is a text lead to the stages. -/
theorem runAs_eq {reader : ArgumentReader} {t : FileTree} {args : List String} (hargs : reader args = .ok o)
    (hread : t.read? o.input = some source.toUTF8) {status : Nat} {scene : Scene}
    (htranslate : (Host.files.translate o source).run ⟨"", t⟩ = (status, scene)) :
    runAs reader t args = ⟨status, scene.printed, scene.files⟩ := by
  rw [runAs, Host.run, hargs]
  simp only [perform_files hread, htranslate]

/-- A run with an input that is a text agrees with compiling that text, however its arguments are read. It prints the
tokens and the tree that are asked for. If compiling gives a report, it then prints that report, which is what stands
for the code, with excerpts if they are asked for, and leaves all files. If compiling gives code, it prints the code, or
prints nothing more and leaves the code in the output file, with all other files as they were. -/
theorem run_agrees {reader : ArgumentReader} {t : FileTree} {args : List String} {o : Options} {source : String}
    (hargs : reader args = .ok o) (hread : t.read? o.input = some source.toUTF8) :
    ∃ preview, o.Previews source preview ∧
      (∀ file report, compile file source = .error report →
        report.text = codeOrReport source ∧
          ∃ excerpts, o.ShowsFaults source excerpts ∧
            runAs reader t args = ⟨1, preview ++ report.text ++ excerpts, t⟩) ∧
      ∀ file code, compile file source = .ok code →
        (o.output = none → runAs reader t args = ⟨0, preview ++ code, t⟩) ∧
          ∀ path, o.output = some path → t.IsWritable path →
            ∃ after, runAs reader t args = ⟨0, preview, after⟩ ∧ after.read? path = some code.toUTF8 ∧
              ∀ names node, t.resolve path ≠ .ok names → t.node? names = some node →
                after.node? names = some node := by
  refine ⟨o.preview source, o.previews_preview source, ?_, ?_⟩
  · intro file report herror
    obtain ⟨own, hown, htext⟩ := compile_error_of_file herror o.sourceName
    have hrun := runAs_eq hargs hread (translate_files_of_error hown t)
    refine ⟨(codeOrReport_of_compile herror).symm, o.excerpts source, o.showsFaults_excerpts source, ?_⟩
    rw [hrun, htext]
  · intro file code hok
    have htranslate := translate_files_of_ok (compile_ok_of_file hok o.sourceName) t
    constructor
    · intro hnone
      rw [hnone, deliver_files_none] at htranslate
      exact runAs_eq hargs hread htranslate
    · intro path hpath hwritable
      obtain ⟨after, hwrite, hafter, hothers⟩ := hwritable.write code
      rw [hpath, deliver_files_some hwrite] at htranslate
      exact ⟨after, runAs_eq hargs hread htranslate, hafter, hothers⟩

/-- A source text in a directory of its own. -/
def sampleTree (source : String) : FileTree :=
  FileTree.system.addFile "d/m" source.toUTF8

/-- A value is missing, in an indented line with a blank at its end. -/
def valuelessSource : String :=
  "package p\nfunc f()\x7b\n\t x:= \n\x7d"

def sampleArgs : List String :=
  ["-vo", "d/../out", "d/m", "--tokens"]

def sampleOptions : Options :=
  ⟨"d/m", some "d/../out", true, false, true⟩

theorem isWritable_sampleTree : (sampleTree (literalSource "a b")).IsWritable "d/../out" := by
  have hnames : ((sampleTree (literalSource "a b")).resolve "d/../out").toOption = some ["tmp", "work", "out"] := by
    decide +kernel
  refine ⟨["tmp", "work", "out"], ?_, .inl (Option.isNone_iff_eq_none.mp ?_)⟩
  · cases hresolve : (sampleTree (literalSource "a b")).resolve "d/../out" with
    | error f => simp [hresolve, Except.toOption] at hnames
    | ok found => simpa [hresolve, Except.toOption] using hnames
  · decide +kernel

theorem ofArgs_sampleArgs : Options.ofArgs sampleArgs = .ok sampleOptions := by
  have hargs : Options.ofArgs? sampleArgs = some sampleOptions := by decide +kernel
  rw [Options.ofArgs, hargs]

/-- The output file is there afterwards if the program is in order, and no file if it is not. -/
theorem run_agrees_output :
    (∃ after, runAs Options.ofArgs (sampleTree (literalSource "a b")) sampleArgs =
        ⟨0, "Keyword `package`\nIdentifier (p)\nDelimiter `;`\nKeyword `func`\nIdentifier (f)\nDelimiter `(`\n" ++
            "Delimiter `)`\nDelimiter `\x7b`\nIdentifier (s)\nOperator `:=`\nLiteral (\"a b\")\nDelimiter `\x7d`\n",
          after⟩ ∧
      after.read? "d/../out" = some (literalCode "a b").toUTF8) ∧
    runAs Options.ofArgs (sampleTree valuelessSource) sampleArgs =
      ⟨1, "Keyword `package`\nIdentifier (p)\nEOL ()\nKeyword `func`\nIdentifier (f)\nDelimiter `(`\n" ++
          "Delimiter `)`\nDelimiter `\x7b`\nEOL ()\nIdentifier (x)\nOperator `:=`\nEOL ()\nDelimiter `\x7d`\n" ++
          "Syntax errors:\n\tExpression expected, got 'end of file'\n" ++
          "Error: UnexpectedToken (Is a closing `\x7d` or a terminator missing?)\n" ++
          "-> d/m\n  |\n3 | x:=\n  | ----^\n",
        sampleTree valuelessSource⟩ := by
  constructor
  · have hread : (sampleTree (literalSource "a b")).read? sampleOptions.input = some (literalSource "a b").toUTF8 := by
      decide +kernel
    have hok : compile unnamedFile (literalSource "a b") = .ok (literalCode "a b") :=
      compile_of_toOption (by decide +kernel)
    obtain ⟨preview, -, -, hcode⟩ := run_agrees ofArgs_sampleArgs hread
    obtain ⟨after, hrun, hafter, -⟩ := (hcode _ _ hok).2 "d/../out" rfl isWritable_sampleTree
    have hprinted : preview = (runAs Options.ofArgs (sampleTree (literalSource "a b")) sampleArgs).printed := by
      rw [hrun]
    refine ⟨after, ?_, hafter⟩
    rw [hrun, hprinted]
    congr 1
    decide +kernel
  · have hread : (sampleTree valuelessSource).read? sampleOptions.input = some valuelessSource.toUTF8 := by
      decide +kernel
    have hfaulty : (compile unnamedFile valuelessSource).toOption = none := by decide +kernel
    cases herror : compile unnamedFile valuelessSource with
    | ok code => simp [herror, Except.toOption] at hfaulty
    | error report =>
      obtain ⟨preview, -, hreport, -⟩ := run_agrees ofArgs_sampleArgs hread
      obtain ⟨-, excerpts, -, hrun⟩ := hreport _ _ herror
      have hprinted : preview ++ report.text ++ excerpts =
          (runAs Options.ofArgs (sampleTree valuelessSource) sampleArgs).printed := by
        rw [hrun]
      rw [hrun, hprinted]
      congr 1
      decide +kernel

end Command

end AddressLines
