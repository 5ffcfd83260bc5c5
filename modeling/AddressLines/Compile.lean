import AddressLines.Code.Line
import AddressLines.Grammar.Program
import AddressLines.Token.Scan
import AddressLines.Typing.Check

/-!
# Compiling

From source text to code. Types are checked even after faults of form, but not if the package clause is
unusable; code comes out only of a program without faults.
-/

namespace AddressLines

def Reading.report (r : Reading) : Report :=
  ⟨r.program.faults, if r.completed then r.program.check.faults else []⟩

/-- The code of a program that was read, or what is wrong with it. -/
def Reading.compile (r : Reading) : Except Report String :=
  if r.report.isEmpty then .ok r.program.code else .error r.report

/-- The file name of text that comes from no file. -/
def unnamedFile : String :=
  "shell"

def read (file source : String) : Reading :=
  .ofTokens (Token.scan file source)

def compile (file source : String) : Except Report String :=
  (read file source).compile

/-- The code of a source text, or the report in its place. -/
def codeOrReport (source : String) : String :=
  match compile unnamedFile source with
  | .ok code => code
  | .error report => report.text

end AddressLines
