import AddressLines.Code.Step
import Mathlib.Tactic.SplitIfs

/-!
# The first arm that fits

A switch as a chain of conditionals runs the body of its first arm that fits, and of no other one. Which conditions hold
is told by any truth assignment to expressions under which `true` holds; an arm without a guard fits always.

A chain of conditionals is run by going from one `else` to the next (`Stmt.selected`). Taken apart in the same way
(`Stmt.ladder`) it has one rung for each arm, with the bodies as they were and in their order, and no last `else`.
-/

namespace AddressLines

/-! ## Chains of conditionals -/

namespace Stmt

/-- The block that a conditional runs, if it runs any. An alternative that is one statement is gone on with. -/
def selected (v : Expr → Bool) : Stmt → Option Block
  | .cond c body none => if v c then some body else none
  | .cond c body (some [s]) => if v c then some body else s.selected v
  | .cond c body (some alternative) => if v c then some body else some alternative
  | s => some [s]

/-- The conditions and bodies along the alternatives of a conditional, and the alternative that is left at the end. -/
def ladder : Stmt → List (Expr × Block) × Option Block
  | .cond c body none => ([(c, body)], none)
  | .cond c body (some [s]) => ((c, body) :: s.ladder.1, s.ladder.2)
  | .cond c body (some alternative) => ([(c, body)], some alternative)
  | s => ([], some [s])

end Stmt

/-! ## Arms -/

/-- An arm fits if it has no guard or if its guard holds: that it equals the subject, or the guard itself if there is no
subject. -/
def Arm.fits (v : Expr → Bool) (subject : Expr) (arm : Arm Stmt) : Bool :=
  match arm.guard, subject with
  | .absent, _ => true
  | guard, .absent => v guard
  | guard, subject => v (.binary subject .eq guard)

theorem Arm.fits_eq {v : Expr → Bool} (htrue : v (.literal (.boolean true)) = true) (subject : Expr) (arm : Arm Stmt) :
    arm.fits v subject = v (subject.armCondition arm.guard) := by
  unfold fits Expr.armCondition
  cases arm.guard <;> cases subject <;> simp [Expr.isAbsent, htrue]

namespace Stmt

variable {v : Expr → Bool} {subject : Expr}

theorem chain?_eq_none_iff {arms : List (Arm Stmt)} : chain? subject arms = none ↔ arms = [] := by
  cases arms with
  | nil => exact iff_of_true rfl rfl
  | cons arm arms => exact iff_of_false (by simp [chain?]) (by simp)

/-- Where a condition fails, what stands in the `else` is run. -/
theorem selected_cond (c : Expr) (body : Block) (next : Option Stmt) :
    (Stmt.cond c body (next.map ([·]))).selected v = if v c then some body else next.bind (selected v) := by
  cases next <;> rfl

theorem ladder_cond (c : Expr) (body : Block) (next : Option Stmt) :
    (Stmt.cond c body (next.map ([·]))).ladder = ((c, body) :: (next.elim [] (·.ladder.1)), next.bind (·.ladder.2)) := by
  cases next <;> rfl

/-- Going down the chain is going through the arms. -/
theorem selected_chain? (htrue : v (.literal (.boolean true)) = true) (arms : List (Arm Stmt)) :
    (chain? subject arms).bind (selected v) = (arms.find? (Arm.fits v subject)).map Arm.body := by
  induction arms with
  | nil => rfl
  | cons arm arms ih =>
    have hchain : (chain? subject (arm :: arms)).bind (selected v) =
        if arm.fits v subject then some arm.body else (chain? subject arms).bind (selected v) := by
      rw [Arm.fits_eq htrue]
      exact selected_cond ..
    rw [hchain, ih, List.find?_cons]
    split_ifs with hfits
    · simp [hfits]
    · simp [hfits]

theorem ladder_of_chain? {arms : List (Arm Stmt)} {s : Stmt} (h : chain? subject arms = some s) :
    s.ladder = (arms.map fun arm => (subject.armCondition arm.guard, arm.body), none) := by
  induction arms generalizing s with
  | nil => simp [chain?] at h
  | cons arm arms ih =>
    obtain rfl : Stmt.cond (subject.armCondition arm.guard) arm.body ((chain? subject arms).map ([·])) = s :=
      Option.some.inj h
    rw [ladder_cond]
    cases hchain : chain? subject arms with
    | none =>
      rw [chain?_eq_none_iff.mp hchain]
      rfl
    | some next =>
      simp only [Option.elim_some, Option.bind_some, ih hchain]
      rfl

/-- A switch is run as a chain of conditionals, under a truth assignment for which `true` holds. A block is selected
exactly if it is the body of an arm that fits and no arm before that one fits; nothing is selected exactly if no arm
fits. The chain, which is missing only if there are no arms, has one conditional for each arm: its rungs are the arms'
conditions with their bodies, in order, and there is no `else` at its end. -/
theorem chain_selects_first (htrue : v (.literal (.boolean true)) = true) (subject : Expr) (arms : List (Arm Stmt)) :
    (∀ body : Block, (chain? subject arms).bind (selected v) = some body ↔
      ∃ before arm after, arms = before ++ arm :: after ∧ (∀ other ∈ before, other.fits v subject = false) ∧
        arm.fits v subject = true ∧ arm.body = body) ∧
      ((chain? subject arms).bind (selected v) = none ↔ ∀ arm ∈ arms, arm.fits v subject = false) ∧
      (chain? subject arms = none ↔ arms = []) ∧
      ∀ s, chain? subject arms = some s →
        s.ladder = (arms.map fun arm => (subject.armCondition arm.guard, arm.body), none) := by
  rw [selected_chain? htrue]
  refine ⟨fun body => ⟨fun h => ?_, ?_⟩, ?_, chain?_eq_none_iff, fun s hs => ladder_of_chain? hs⟩
  · obtain ⟨arm, hfind, hbody⟩ := Option.map_eq_some_iff.mp h
    obtain ⟨hfits, before, after, harms, hbefore⟩ := List.find?_eq_some_iff_append.mp hfind
    exact ⟨before, arm, after, harms, fun other hother => by simpa using hbefore other hother, hfits, hbody⟩
  · rintro ⟨before, arm, after, harms, hbefore, hfits, hbody⟩
    have hfind : arms.find? (Arm.fits v subject) = some arm :=
      List.find?_eq_some_iff_append.mpr
        ⟨hfits, before, after, harms, fun other hother => by simpa using hbefore other hother⟩
    rw [hfind, Option.map_some, hbody]
  · simp only [Option.map_eq_none_iff, List.find?_eq_none, Bool.not_eq_true]

/-- A default arm wins over the arm behind it, which fits too. -/
theorem chain_selects_default :
    let v : Expr → Bool := fun e => e = .literal (.boolean true) || e = .binary (.name "x") .eq (.literal (.integer 2))
    let arms : List (Arm Stmt) := [⟨.literal (.integer 1), [.branch .breaks]⟩, ⟨.absent, [.branch .continues]⟩,
      ⟨.literal (.integer 2), [.branch .returns]⟩]
    v (.literal (.boolean true)) = true ∧ (arms.map (Arm.fits v (.name "x"))) = [false, true, true] ∧
      (chain? (.name "x") arms).bind (selected v) = some [.branch .continues] := by
  intro v arms
  have htrue : v (.literal (.boolean true)) = true := by decide
  refine ⟨htrue, by decide, ?_⟩
  obtain ⟨hselected, -⟩ := chain_selects_first htrue (.name "x") arms
  rw [hselected]
  refine ⟨[⟨.literal (.integer 1), [.branch .breaks]⟩], ⟨.absent, [.branch .continues]⟩,
    [⟨.literal (.integer 2), [.branch .returns]⟩], rfl, ?_, rfl, rfl⟩
  intro other hother
  rw [List.mem_singleton.mp hother]
  decide

end Stmt

end AddressLines
