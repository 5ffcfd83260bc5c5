import AddressLines.Grammar.Expr
import Mathlib.Data.Nat.Basic
import Mathlib.Order.Basic
import Mathlib.Tactic.SplitIfs

/-!
# The tree of a flat run

A tree is in normal form when its operators alone tell how it groups: a left operand binds at least as strongly as
its operator, a right operand more strongly, and an operator before an operand has no binary operand.

Every tree flattens into its first operand and its links (`first`, `chain`). On a tree in normal form, building
the tree again from them gives it back (`ofLinks_first_chain`), so the run determines the tree. What is built from
any run is in normal form (`isNormal_ofLinks`).
-/

namespace AddressLines

theorem Power.rank_injective : Function.Injective Power.rank := by
  intro p q h
  revert h
  cases p <;> cases q <;> decide

instance : LinearOrder Power :=
  LinearOrder.lift' Power.rank Power.rank_injective

namespace Expr

/-- The operator at the top of a tree. -/
def root? : Expr → Option BinOp
  | .binary _ op _ => some op
  | _ => none

def isNormal (power : BinOp → Power) : Expr → Bool
  | .absent | .name _ | .literal _ => true
  | .unary _ e => !e.isAbsent && e.root?.isNone && e.isNormal power
  | .binary l op r =>
    l.isNormal power && r.isNormal power &&
      l.root?.all (fun o => power op ≤ power o) && r.root?.all (fun o => power op < power o)

/-- The leftmost operand. -/
def first : Expr → Expr
  | .binary l _ _ => l.first
  | e => e

/-- The operators from left to right, each with the operand after it. -/
def chain : Expr → List (BinOp × Expr)
  | .binary l op r => l.chain ++ (op, r.first) :: r.chain
  | _ => []

variable {power : BinOp → Power}

theorem isNormal_binary {l r : Expr} {op : BinOp} :
    (Expr.binary l op r).isNormal power = true ↔ l.isNormal power = true ∧ r.isNormal power = true ∧
      (∀ o ∈ l.root?, power op ≤ power o) ∧ ∀ o ∈ r.root?, power op < power o := by
  show (l.isNormal power && r.isNormal power && l.root?.all (fun o => power op ≤ power o) &&
    r.root?.all (fun o => power op < power o)) = true ↔ _
  simp only [Bool.and_eq_true, Option.all_eq_true, decide_eq_true_eq, and_assoc, Option.mem_def]

theorem isNormal_unary {op : String} {e : Expr} :
    (Expr.unary op e).isNormal power = true ↔ e.isAbsent = false ∧ e.root? = none ∧ e.isNormal power = true := by
  show (!e.isAbsent && e.root?.isNone && e.isNormal power) = true ↔ _
  simp only [Bool.and_eq_true, Bool.not_eq_true', Option.isNone_iff_eq_none, and_assoc]

/-! ## Operands -/

theorem root?_first (e : Expr) : e.first.root? = none := by
  induction e with
  | binary l op r ihl _ => exact ihl
  | _ => rfl

theorem isNormal_first {e : Expr} (h : e.isNormal power = true) : e.first.isNormal power = true := by
  induction e with
  | binary l op r ihl _ => exact ihl (isNormal_binary.mp h).1
  | _ => exact h

theorem mem_chain_binary {l r : Expr} {op : BinOp} {link : BinOp × Expr} :
    link ∈ (Expr.binary l op r).chain ↔ link ∈ l.chain ∨ link = (op, r.first) ∨ link ∈ r.chain := by
  simp only [chain, List.mem_append, List.mem_cons]

theorem root?_of_mem_chain {e : Expr} {link : BinOp × Expr} (h : link ∈ e.chain) : link.2.root? = none := by
  induction e with
  | binary l op r ihl ihr =>
    rcases mem_chain_binary.mp h with hmem | rfl | hmem
    · exact ihl hmem
    · exact root?_first r
    · exact ihr hmem
  | _ => cases h

theorem isNormal_of_mem_chain {e : Expr} (hnormal : e.isNormal power = true) {link : BinOp × Expr}
    (h : link ∈ e.chain) : link.2.isNormal power = true := by
  induction e with
  | binary l op r ihl ihr =>
    obtain ⟨hl, hr, -, -⟩ := isNormal_binary.mp hnormal
    rcases mem_chain_binary.mp h with hmem | rfl | hmem
    · exact ihl hl hmem
    · exact isNormal_first hr
    · exact ihr hr hmem
  | _ => cases h

/-- The operator at the top is the weakest one. -/
theorem lt_of_mem_chain {e : Expr} (hnormal : e.isNormal power = true) {floor : Power}
    (hroot : ∀ o ∈ e.root?, floor < power o) {link : BinOp × Expr} (h : link ∈ e.chain) :
    floor < power link.1 := by
  induction e with
  | binary l op r ihl ihr =>
    obtain ⟨hl, hr, hleft, hright⟩ := isNormal_binary.mp hnormal
    have hop : floor < power op := hroot op rfl
    rcases mem_chain_binary.mp h with hmem | rfl | hmem
    · exact ihl hl (fun o ho => lt_of_lt_of_le hop (hleft o ho)) hmem
    · exact hop
    · exact ihr hr (fun o ho => lt_trans hop (hright o ho)) hmem
  | _ => cases h

/-! ## Building the tree again -/

theorem graft_binary (l r right : Expr) (o op : BinOp) : (Expr.binary l o r).graft power op right =
    if power o < power op then .binary l o (r.graft power op right) else .binary (.binary l o r) op right :=
  rfl

/-- A link no stronger than the top goes above the whole tree. -/
theorem graft_of_le {e right : Expr} {op : BinOp} (h : ∀ o ∈ e.root?, power op ≤ power o) :
    e.graft power op right = .binary e op right := by
  cases e with
  | binary l o r => rw [graft_binary, if_neg (not_lt.mpr (h o rfl))]
  | _ => rfl

/-- Links stronger than the top all go into the right operand. -/
theorem ofLinks_binary {l e : Expr} {op : BinOp} {links : List (BinOp × Expr)}
    (h : ∀ link ∈ links, power op < power link.1) :
    ofLinks power (.binary l op e) links = .binary l op (ofLinks power e links) := by
  induction links generalizing e with
  | nil => rfl
  | cons link links ih =>
    obtain ⟨hlink, hlinks⟩ := List.forall_mem_cons.mp h
    have hgraft : graft power (.binary l op e) link.1 link.2 = .binary l op (e.graft power link.1 link.2) := by
      rw [graft_binary, if_pos hlink]
    calc ofLinks power (.binary l op e) (link :: links)
        = ofLinks power (.binary l op (e.graft power link.1 link.2)) links := by
          rw [ofLinks, List.foldl_cons, hgraft]; rfl
      _ = .binary l op (ofLinks power (e.graft power link.1 link.2) links) := ih hlinks

theorem ofLinks_first_chain {e : Expr} (h : e.isNormal power = true) : ofLinks power e.first e.chain = e := by
  induction e with
  | binary l op r ihl ihr =>
    obtain ⟨hl, hr, hleft, hright⟩ := isNormal_binary.mp h
    calc ofLinks power l.first (l.chain ++ (op, r.first) :: r.chain)
        = ofLinks power (ofLinks power l.first l.chain) ((op, r.first) :: r.chain) := List.foldl_append
      _ = ofLinks power (l.graft power op r.first) r.chain := by rw [ihl hl]; rfl
      _ = ofLinks power (.binary l op r.first) r.chain := by rw [graft_of_le hleft]
      _ = .binary l op (ofLinks power r.first r.chain) :=
          ofLinks_binary fun link hmem => lt_of_mem_chain hr hright hmem
      _ = .binary l op r := by rw [ihr hr]
  | _ => rfl

/-! ## Every run makes a tree in normal form -/

theorem root?_graft {e right : Expr} {op o : BinOp} (h : o ∈ (e.graft power op right).root?) :
    o = op ∨ o ∈ e.root? := by
  cases e with
  | binary l p r =>
    rw [graft_binary] at h
    split_ifs at h
    · exact .inr h
    · exact .inl (Option.some.inj h).symm
  | _ => exact .inl (Option.some.inj h).symm

theorem isNormal_graft {e right : Expr} {op : BinOp} (he : e.isNormal power = true)
    (hright : right.isNormal power = true) (hroot : right.root? = none) :
    (e.graft power op right).isNormal power = true := by
  induction e with
  | binary l o r _ ih =>
    obtain ⟨hl, hr, hleft, hstronger⟩ := isNormal_binary.mp he
    rw [graft_binary]
    split_ifs with hlt
    · -- the link goes into the right operand, whose top stays stronger
      refine isNormal_binary.mpr ⟨hl, ih hr, hleft, fun p hp => ?_⟩
      rcases root?_graft hp with rfl | hp
      · exact hlt
      · exact hstronger p hp
    · refine isNormal_binary.mpr ⟨he, hright, ?_, by simp [hroot]⟩
      rintro _ ⟨⟩
      exact not_lt.mp hlt
  | _ => exact isNormal_binary.mpr ⟨he, hright, by simp [root?], by simp [hroot]⟩

theorem isNormal_ofLinks {first : Expr} {links : List (BinOp × Expr)} (hfirst : first.isNormal power = true)
    (hlinks : ∀ link ∈ links, link.2.root? = none ∧ link.2.isNormal power = true) :
    (ofLinks power first links).isNormal power = true := by
  induction links generalizing first with
  | nil => exact hfirst
  | cons link links ih =>
    obtain ⟨⟨hroot, hnormal⟩, hlinks⟩ := List.forall_mem_cons.mp hlinks
    exact ih (isNormal_graft hfirst hnormal hroot) hlinks

end Expr

end AddressLines
