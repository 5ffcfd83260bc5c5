import AddressLines.Grammar.Stmt

/-!
# Reading programs

A program starts with its package clause; without a usable one nothing else is read. Procedures follow up
to the end of the tokens.
-/

namespace AddressLines

namespace Reader

/-- The package clause. A wrong keyword hides the faults behind it, and an empty name is no name. -/
def packageClause (r : Reader) (ts : List Token) : Parsed (Option String) ts :=
  let keyword := r.expect "package" ts
  let name := r.identifier keyword.rest
  let ending := r.terminator name.rest
  let suffix := (ending.suffix.trans name.suffix).trans keyword.suffix
  match keyword.value with
  | .error f => ⟨none, ending.rest, [f], suffix⟩
  | .ok _ =>
    let named := name.recover ""
    ⟨if named.value = "" then none else some named.value, ending.rest,
      named.faults ++ (ending.recover ()).faults, suffix⟩

/-- A procedure behind its keyword. One without a name is read and dropped. -/
def procedureOf (r : Reader) (ts : List Token) : Parsed (Option Procedure) ts :=
  (((r.identifier ts).map fun name => name.map some).recover none).andThen fun name us _ =>
    (r.consume "(" us).andThen fun _ vs _ =>
      (r.consume ")" vs).andThen fun _ ws _ =>
        (r.braces ws).map fun body => name.map fun x => ⟨x, body⟩

/-- A procedure by its first token, which is taken even if it is a wrong one. -/
def procedureBy (r : Reader) (t : Token) (us : List Token) : Parsed (Option Procedure) us :=
  if t.text = "func" then r.procedureOf us
  else (Parsed.pure none).report (r.unexpected "func" (t :: us))

def procedure (r : Reader) : (ts : List Token) → Parsed (Option Procedure) ts
  | [] => (Parsed.pure none).report (r.unexpected "func" [])
  | t :: us =>
    if t.isLineEnd then (r.procedure us).widen (List.suffix_cons t us)
    else (r.procedureBy t us).widen (List.suffix_cons t us)

/-- All procedures up to the end of the tokens. -/
def procedures (r : Reader) (ts : List Token) : Parsed (List Procedure) ts :=
  match ts with
  | [] => .pure []
  | t :: us =>
    if t.isLineEnd then (r.procedures us).widen (List.suffix_cons t us)
    else
      ((r.procedureBy t us).andThen fun p vs _ =>
        (r.procedures vs).map fun ps => p.toList ++ ps).widen (List.suffix_cons t us)
termination_by ts.length
decreasing_by all_goals simp only [List.length_cons]; omega

end Reader

/-- A program read from tokens, and whether reading got past its package clause. -/
structure Reading where
  program : Program
  completed : Bool

def Reading.ofTokens (ts : List Token) : Reading :=
  let r := Reader.standard ts
  let clause := r.packageClause ts
  match clause.value with
  | none => ⟨⟨none, [], clause.faults⟩, false⟩
  | some name =>
    let body := r.procedures clause.rest
    ⟨⟨some name, body.value, clause.faults ++ body.faults⟩, true⟩

end AddressLines
