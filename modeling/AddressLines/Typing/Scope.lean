import AddressLines.Fault
import AddressLines.Typing.Ty

/-!
# Scopes

The checker holds the open scopes, a log of every variable defined so far, and the faults found so far.
-/

namespace AddressLines

/-- The variables defined directly in one block, in order of definition. -/
structure Scope where
  depth : Nat
  entries : List (String × Ty)
deriving DecidableEq, Repr

namespace Scope

def find? (s : Scope) (x : String) : Option Ty :=
  s.entries.lookup x

def add (s : Scope) (x : String) (τ : Ty) : Scope :=
  ⟨s.depth, s.entries ++ [(x, τ)]⟩

end Scope

structure Definition where
  depth : Nat
  name : String
  ty : Ty
deriving DecidableEq, Repr

structure Checker where
  /-- Open scopes, the innermost first. -/
  scopes : List Scope
  defined : List Definition
  faults : List Fault
deriving DecidableEq, Repr

namespace Checker

/-- The only scope at the start of a procedure. -/
def outermost : List Scope :=
  [⟨0, []⟩]

def start : Checker :=
  ⟨outermost, [], []⟩

/-- Closes all scopes and begins again at depth zero. -/
def enterProcedure (c : Checker) : Checker :=
  { c with scopes := outermost }

def depth (c : Checker) : Nat :=
  c.scopes.head?.elim 0 Scope.depth

def push (c : Checker) : Checker :=
  { c with scopes := ⟨c.depth + 1, []⟩ :: c.scopes }

/-- Closes the innermost scope; the last one stays open. -/
def pop (c : Checker) : Checker :=
  match c.scopes with
  | _ :: s :: ss => { c with scopes := s :: ss }
  | _ => c

def isDeclaredHere (c : Checker) (x : String) : Bool :=
  c.scopes.head?.any fun s => (s.find? x).isSome

/-- The type of a variable, from the innermost scope that has it. -/
def fetch? (c : Checker) (x : String) : Option Ty :=
  c.scopes.findSome? (·.find? x)

def report (c : Checker) (cause : Fault.Cause) : Checker :=
  { c with faults := c.faults ++ [⟨cause, none⟩] }

def reportAll (c : Checker) (faults : List Fault) : Checker :=
  { c with faults := c.faults ++ faults }

/-- Defines a variable in the innermost scope, unless that scope has it already. -/
def declare (c : Checker) (x : String) (τ : Ty) : Checker :=
  match c.scopes with
  | [] => c
  | s :: ss =>
    if (s.find? x).isSome then c.report (.alreadyDefined x)
    else { c with scopes := s.add x τ :: ss, defined := c.defined ++ [⟨s.depth, x, τ⟩] }

end Checker

/-- Definitions of one depth, in their order. -/
def Definition.atDepth (depth : Nat) (ds : List Definition) : List Definition :=
  ds.filter (·.depth == depth)

/-- Definitions by depth, from the lowest depth on. -/
def Definition.byDepth (ds : List Definition) : List (Nat × List Definition) :=
  let deepest := (ds.map Definition.depth).max?.elim 0 (· + 1)
  ((List.range deepest).map fun d => (d, atDepth d ds)).filter fun (_, group) => !group.isEmpty

end AddressLines
