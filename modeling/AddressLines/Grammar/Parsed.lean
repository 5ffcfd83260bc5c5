import AddressLines.Fault
import AddressLines.Tree.Operator

/-!
# Reading off tokens

Every part of a program is read off the front of a list of tokens. The outcome holds what was read, the
tokens that are left, and the faults recorded on the way; reading goes on after a fault. What is left is
always an end piece of what was there, which is why reading comes to an end.
-/

namespace AddressLines

/-- The statement a keyword opens. -/
inductive Opening where
  | declaration
  | conditional
  | selection
  | branch (word : Branch)
deriving DecidableEq, Repr

/-- What the reader knows of the language: the power of each operator (the lowest one for an operator
that is not in use) and the statement each keyword opens. -/
structure Grammar where
  power : BinOp → Power
  opening : String → Option Opening

namespace Grammar

def standardOpening (text : String) : Option Opening :=
  if text = "var" then some .declaration
  else if text = "if" then some .conditional
  else if text = "switch" then some .selection
  else (Branch.ofKeyword? text).map .branch

def standard : Grammar :=
  ⟨BinOp.power, standardOpening⟩

/-- No operator and no statement keyword is in use. -/
def empty : Grammar :=
  ⟨fun _ => .lowest, fun _ => none⟩

/-- Gives the operator with this symbol another power; a symbol of no operator changes nothing. -/
def register (g : Grammar) (symbol : String) (p : Power) : Grammar :=
  { g with power := fun op => if op.symbol = symbol then p else g.power op }

end Grammar

/-- The grammar, and the place where the input ends. -/
structure Reader where
  grammar : Grammar
  finish : Position

/-- The position of the end of a list of tokens. -/
def Position.afterAll (ts : List Token) : Position :=
  (ts.getLast?.map Token.stop).getD ⟨0, "<null>"⟩

def Reader.standard (ts : List Token) : Reader :=
  ⟨.standard, .afterAll ts⟩

/-- An outcome of reading an `α` off the front of `ts`. -/
structure Parsed (α : Type) (ts : List Token) where
  value : α
  rest : List Token
  faults : List Fault
  suffix : rest <:+ ts

namespace Parsed

variable {α β : Type} {ts : List Token}

/-- Nothing is taken. -/
def pure (a : α) : Parsed α ts :=
  ⟨a, ts, [], List.suffix_rfl⟩

/-- Goes on reading behind what was read. -/
def andThen (r : Parsed α ts) (f : α → (us : List Token) → us.length ≤ ts.length → Parsed β us) :
    Parsed β ts :=
  let s := f r.value r.rest r.suffix.length_le
  ⟨s.value, s.rest, r.faults ++ s.faults, s.suffix.trans r.suffix⟩

def map (f : α → β) (r : Parsed α ts) : Parsed β ts :=
  ⟨f r.value, r.rest, r.faults, r.suffix⟩

/-- The same outcome for a list that only starts earlier. -/
def widen {us : List Token} (r : Parsed α us) (h : us <:+ ts) : Parsed α ts :=
  ⟨r.value, r.rest, r.faults, r.suffix.trans h⟩

def report (r : Parsed α ts) (f : Fault) : Parsed α ts :=
  ⟨r.value, r.rest, f :: r.faults, r.suffix⟩

/-- Records the fault of a failed part and goes on with a default. -/
def recover (fallback : α) (r : Parsed (Except Fault α) ts) : Parsed α ts :=
  match r.value with
  | .ok a => ⟨a, r.rest, r.faults, r.suffix⟩
  | .error f => ⟨fallback, r.rest, r.faults ++ [f], r.suffix⟩

@[simp] theorem value_pure (a : α) : (pure a : Parsed α ts).value = a := rfl

@[simp] theorem rest_pure (a : α) : (pure a : Parsed α ts).rest = ts := rfl

@[simp] theorem faults_pure (a : α) : (pure a : Parsed α ts).faults = [] := rfl

section andThen

variable (r : Parsed α ts) (f : α → (us : List Token) → us.length ≤ ts.length → Parsed β us)

@[simp] theorem value_andThen :
    (r.andThen f).value = (f r.value r.rest r.suffix.length_le).value := rfl

@[simp] theorem rest_andThen :
    (r.andThen f).rest = (f r.value r.rest r.suffix.length_le).rest := rfl

@[simp] theorem faults_andThen :
    (r.andThen f).faults = r.faults ++ (f r.value r.rest r.suffix.length_le).faults := rfl

end andThen

@[simp] theorem value_map (f : α → β) (r : Parsed α ts) : (r.map f).value = f r.value := rfl

@[simp] theorem rest_map (f : α → β) (r : Parsed α ts) : (r.map f).rest = r.rest := rfl

@[simp] theorem faults_map (f : α → β) (r : Parsed α ts) : (r.map f).faults = r.faults := rfl

section widen

variable {us : List Token} (r : Parsed α us) (h : us <:+ ts)

@[simp] theorem value_widen : (r.widen h).value = r.value := rfl

@[simp] theorem rest_widen : (r.widen h).rest = r.rest := rfl

@[simp] theorem faults_widen : (r.widen h).faults = r.faults := rfl

end widen

@[simp] theorem value_report (r : Parsed α ts) (f : Fault) : (r.report f).value = r.value := rfl

@[simp] theorem rest_report (r : Parsed α ts) (f : Fault) : (r.report f).rest = r.rest := rfl

@[simp] theorem faults_report (r : Parsed α ts) (f : Fault) :
    (r.report f).faults = f :: r.faults := rfl

@[simp] theorem rest_recover (a : α) (r : Parsed (Except Fault α) ts) :
    (r.recover a).rest = r.rest := by
  unfold recover
  split <;> rfl

end Parsed

/-! ## Single tokens -/

def skipLineEnds (ts : List Token) : List Token :=
  ts.dropWhile Token.isLineEnd

theorem skipLineEnds_suffix (ts : List Token) : skipLineEnds ts <:+ ts :=
  List.dropWhile_suffix _

theorem tail_skipLineEnds_suffix (ts : List Token) : (skipLineEnds ts).tail <:+ ts :=
  (List.tail_suffix _).trans (skipLineEnds_suffix ts)

/-- The first token, as a message shows it. -/
def foundText : List Token → String
  | [] => Fault.endOfFile
  | t :: _ => Fault.quote t.text

/-- Whether the next token that is not a line end has a given text, whatever its kind. -/
def nextIs (text : String) (ts : List Token) : Bool :=
  (skipLineEnds ts).head?.any (·.text == text)

namespace Reader

def position (r : Reader) : List Token → Position
  | [] => r.finish
  | t :: _ => t.start

def unexpected (r : Reader) (expected : String) (ts : List Token) : Fault :=
  ⟨.unexpected expected (foundText ts), some (r.position ts)⟩

/-- Takes the next token that is not a line end, whether or not it has the expected text, so that a
wrong token is never seen twice. -/
def expect (r : Reader) (text : String) (ts : List Token) : Parsed (Except Fault Token) ts where
  value :=
    match skipLineEnds ts with
    | [] => .error (r.unexpected text [])
    | t :: us => if t.text = text then .ok t else .error (r.unexpected text (t :: us))
  rest := (skipLineEnds ts).tail
  faults := []
  suffix := tail_skipLineEnds_suffix ts

def consume (r : Reader) (text : String) (ts : List Token) : Parsed Unit ts :=
  ((r.expect text ts).map fun e => e.map fun _ => ()).recover ()

/-- Takes a name, and nothing if there is none. -/
def identifier (r : Reader) : (ts : List Token) → Parsed (Except Fault String) ts
  | [] => .pure (.error (r.unexpected "Identifier" []))
  | t :: us =>
    if t.kind = .identifier then ⟨.ok t.text, us, [], List.suffix_cons t us⟩
    else .pure (.error ⟨.wrongKind "Identifier" (Fault.quote t.text) t.kind.name, some t.start⟩)

/-- The end of a statement: a terminator is taken, a closing brace or the end of the input is left. -/
def terminator (r : Reader) : (ts : List Token) → Parsed (Except Fault Unit) ts
  | [] => .pure (.ok ())
  | t :: us =>
    if t.isTerminator then ⟨.ok (), us, [], List.suffix_cons t us⟩
    else if t.text = closeBrace then .pure (.ok ())
    else .pure (.error (r.unexpected "';' or a new line" (t :: us)))

end Reader

/-- Takes a terminator if one follows. -/
def skipTerminator : (ts : List Token) → Parsed Unit ts
  | [] => .pure ()
  | t :: us => if t.isTerminator then ⟨(), us, [], List.suffix_cons t us⟩ else .pure ()

end AddressLines
