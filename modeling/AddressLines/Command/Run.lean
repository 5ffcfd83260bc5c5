import AddressLines.Command.Excerpt
import AddressLines.Command.FileTree
import AddressLines.Command.Options
import AddressLines.Compile
import AddressLines.Tree.Dump

/-!
# Running the command

One run compiles one file. Tokens and tree are printed first if asked for, then either the report of
what is wrong or the code, which an output file takes instead of the printed text.

A run is written over the operations of the host it runs in, so the same steps run in a file tree and on a
machine.
-/

namespace AddressLines.Command

/-- The last name in a path. -/
def fileName? (path : String) : Option String :=
  match ((pieces path).filter fun p => p ≠ "" ∧ p ≠ ".").getLast? with
  | some ".." => none
  | name => name

/-- The name under which a run reads its input. -/
def Options.sourceName (o : Options) : String :=
  (fileName? o.input).getD unnamedFile

def unreadable : String :=
  "Could not open file\n"

def unwritable (path reason : String) : String :=
  "Could not write " ++ path ++ ": " ++ reason ++ "\n"

/-! ## Steps of a run -/

/-- What a run can do in the host around it. -/
structure Host (m : Type → Type) where
  /-- The bytes of a file, if it can be read. -/
  read? (path : String) : m (Option ByteArray)
  /-- Puts a text in a file, or says why it cannot. -/
  write (path content : String) : m (Except String Unit)
  print (text : String) : m Unit

section Steps

variable {m : Type → Type} [Monad m]

/-- Prints the texts one after the other, if they are asked for. -/
def Host.printIf (h : Host m) (asked : Bool) (texts : List String) : m Unit :=
  if asked then texts.forM h.print else pure ()

/-- The code goes to the output file, and is printed if there is none. -/
def Host.deliver (h : Host m) (output : Option String) (code : String) : m Nat :=
  match output with
  | none => do
    h.print code
    return 0
  | some path => do
    match ← h.write path code with
    | .ok () => return 0
    | .error reason => do
      h.print (unwritable path reason)
      return 1

/-- All that a run does with its source. -/
def Host.translate (h : Host m) (o : Options) (source : String) : m Nat := do
  let tokens := Token.scan o.sourceName source
  h.printIf o.tokens (tokens.map fun t => t.listing ++ "\n")
  let reading := Reading.ofTokens tokens
  h.printIf o.tree [reading.program.dump ++ "\n"]
  let report := reading.report
  if report.isEmpty then
    h.deliver o.output reading.program.code
  else do
    h.print report.text
    h.printIf o.verbose (report.form.map (excerpt source o.input))
    return 1

/-- A run with its options. It gives the exit status: 0 for code, and 1 for a program or a file at
fault. -/
def Host.perform (h : Host m) (o : Options) : m Nat := do
  match (← h.read? o.input).bind String.fromUTF8? with
  | none => do
    h.print unreadable
    return 1
  | some source => h.translate o source

/-- A run with its arguments. They are read first, and may end the run themselves. -/
def Host.run (h : Host m) (reader : ArgumentReader) (args : List String) : m Nat :=
  match reader args with
  | .ok o => h.perform o
  | .error ending => do
    h.print ending.text
    return ending.status

end Steps

/-! ## Runs in a file tree -/

/-- What has been printed so far, and the files. -/
structure Scene where
  printed : String
  files : FileTree

/-- The host that a file tree makes up. -/
def Host.files : Host (StateM Scene) where
  read? path := fun scene => (scene.files.read? path, scene)
  write path content := fun scene =>
    match scene.files.write path content with
    | .ok files => (.ok (), { scene with files })
    | .error f => (.error f.message, scene)
  print text := fun scene => ((), { scene with printed := scene.printed ++ text })

/-- The end of a run: its exit status, all that it printed, and the files it leaves. -/
structure Outcome where
  status : Nat
  printed : String
  files : FileTree

/-- A run in a file tree, for any way to read arguments. -/
def runAs (reader : ArgumentReader) (t : FileTree) (args : List String) : Outcome :=
  let (status, scene) := (Host.files.run reader args).run ⟨"", t⟩
  ⟨status, scene.printed, scene.files⟩

/-- A run in a file tree. -/
def run (t : FileTree) (args : List String) : Outcome :=
  runAs Options.ofArgs t args

end AddressLines.Command
