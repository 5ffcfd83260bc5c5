/-!
# Addresses

The place of a line in the code: one number for each level of nesting.
-/

namespace AddressLines

/-- Numbers from the outermost level to the innermost. -/
structure Address where
  segments : List Nat
deriving DecidableEq, Repr

namespace Address

/-- The first address one level down. -/
def child (a : Address) : Address :=
  ⟨a.segments ++ [1]⟩

/-- The address after this one on the same level. -/
def next (a : Address) : Address :=
  match a.segments.getLast? with
  | none => a
  | some n => ⟨a.segments.dropLast ++ [n + 1]⟩

/-- The address `n` places further on the same level. -/
def skip (a : Address) : Nat → Address
  | 0 => a
  | n + 1 => a.next.skip n

def depth (a : Address) : Nat :=
  a.segments.length

def text (a : Address) : String :=
  String.join (a.segments.map fun n => toString n ++ ".")

/-- One tab for each level below the top. -/
def indent (a : Address) : String :=
  String.ofList (List.replicate (a.depth - 1) '\t')

@[simp] theorem next_append (ns : List Nat) (n : Nat) :
    (Address.mk (ns ++ [n])).next = ⟨ns ++ [n + 1]⟩ := by
  simp [next]

theorem skip_append (ns : List Nat) (n k : Nat) :
    (Address.mk (ns ++ [n])).skip k = ⟨ns ++ [n + k]⟩ := by
  induction k generalizing n with
  | zero => rfl
  | succ k ih => rw [skip, next_append, ih]; congr 3; omega

end Address

end AddressLines
