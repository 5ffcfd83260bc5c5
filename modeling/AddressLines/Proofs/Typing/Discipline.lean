import AddressLines.Proofs.Typing.Agreement
import AddressLines.Proofs.Typing.Moves

/-!
# Scope discipline

Whatever is asked of a checker and in which order, its scopes stay a stack: there is always one, and their depths count
up from zero at the outermost one. Checking a statement or a block works on the innermost scope alone and only adds to
it; what opens a scope of its own leaves the stack exactly as it was.

The stack is an invariant of the single moves (`Scope.Stack`), and every call of the checker is a list of moves. That no
scope has a name twice belongs to the invariant: it makes the names that a statement adds new ones.
-/

namespace AddressLines

/-! ## The table of variables -/

namespace Definition

theorem atDepth_append (k : Nat) (ds ds' : List Definition) : atDepth k (ds ++ ds') = atDepth k ds ++ atDepth k ds' :=
  List.filter_append ..

theorem atDepth_eq_nil {k : Nat} {ds : List Definition} (h : ∀ d ∈ ds, d.depth ≠ k) : atDepth k ds = [] :=
  List.filter_eq_nil_iff.mpr fun d hd heq => h d hd (beq_iff_eq.mp heq)

theorem depth_lt_deepest {ds : List Definition} {d : Definition} (hd : d ∈ ds) :
    d.depth < (ds.map Definition.depth).max?.elim 0 (· + 1) := by
  have hmem : d.depth ∈ ds.map Definition.depth := List.mem_map_of_mem hd
  cases hmax : (ds.map Definition.depth).max? with
  | none => simp [List.max?_eq_none_iff.mp hmax] at hmem
  | some deepest => exact Nat.lt_succ_of_le ((List.max?_eq_some_iff.mp hmax).2 _ hmem)

/-- A table by depth that leaves out the depths without entries. -/
theorem lookup_groups (group : Nat → List Definition) (depths : List Nat) (k : Nat) :
    (((depths.map fun d => (d, group d)).filter fun (_, ds) => !ds.isEmpty).lookup k).getD [] =
      if k ∈ depths then group k else [] := by
  induction depths with
  | nil => rfl
  | cons d depths ih =>
    by_cases hk : k = d
    · subst hk
      cases hgroup : group k with
      | nil => simp_all
      | cons x xs => simp [hgroup]
    · have hne : (k == d) = false := beq_eq_false_iff_ne.mpr hk
      cases hgroup : group d with
      | nil => simp [hgroup, hk, ih]
      | cons x xs => simp [hgroup, hk, hne, List.lookup_cons, ih]

end Definition

namespace Checker

/-- The variables that the table of a checker lists at a depth. -/
def variablesAt (c : Checker) (depth : Nat) : List Definition :=
  ((Definition.byDepth c.defined).lookup depth).getD []

theorem variablesAt_eq (c : Checker) (depth : Nat) : c.variablesAt depth = Definition.atDepth depth c.defined := by
  rw [variablesAt, Definition.byDepth, Definition.lookup_groups]
  split_ifs with h
  · rfl
  · refine (Definition.atDepth_eq_nil ?_).symm
    rintro d hd rfl
    exact h (List.mem_range.mpr (Definition.depth_lt_deepest hd))

end Checker

/-! ## Stacks of scopes -/

namespace Scope

variable {s t : Scope} {ss : List Scope}

/-- There is a scope, the depths count up from the outermost scope on, and no scope has a name twice. -/
structure Stack (scopes : List Scope) : Prop where
  isOpen : scopes ≠ []
  depths : scopes.reverse.map depth = List.range scopes.length
  nodup : ∀ s ∈ scopes, (s.entries.map Prod.fst).Nodup

/-- The depth of the innermost scope is the number of scopes around it, which count up by themselves. -/
theorem depths_cons : (s :: ss).reverse.map depth = List.range (s :: ss).length ↔
    ss.reverse.map depth = List.range ss.length ∧ s.depth = ss.length := by
  rw [List.reverse_cons, List.map_append, List.length_cons, List.range_succ]
  constructor
  · intro h
    obtain ⟨houter, hinner⟩ := List.append_inj' h rfl
    exact ⟨houter, by simpa using hinner⟩
  · rintro ⟨houter, hinner⟩
    rw [houter, List.map_singleton, hinner]

theorem stack_outermost : Stack Checker.outermost :=
  ⟨by decide, by decide, by decide⟩

theorem Stack.push (h : Stack (s :: ss)) : Stack (⟨s.depth + 1, []⟩ :: s :: ss) := by
  refine ⟨by simp, depths_cons.mpr ⟨h.depths, ?_⟩, List.forall_mem_cons.mpr ⟨List.nodup_nil, h.nodup⟩⟩
  rw [(depths_cons.mp h.depths).2, List.length_cons]

theorem Stack.pop (h : Stack (t :: s :: ss)) : Stack (s :: ss) :=
  ⟨by simp, (depths_cons.mp h.depths).1, (List.forall_mem_cons.mp h.nodup).2⟩

/-- A name that the innermost scope does not have can be added to it. -/
theorem Stack.add (h : Stack (s :: ss)) {x : String} (hx : s.find? x = none) (τ : Ty) : Stack (s.add x τ :: ss) := by
  obtain ⟨hdepths, hdepth⟩ := depths_cons.mp h.depths
  obtain ⟨hinner, houter⟩ := List.forall_mem_cons.mp h.nodup
  refine ⟨by simp, depths_cons.mpr ⟨hdepths, hdepth⟩, List.forall_mem_cons.mpr ⟨?_, houter⟩⟩
  have hfresh : x ∉ s.entries.map Prod.fst := by
    intro hmem
    obtain ⟨⟨y, σ⟩, hentry, rfl⟩ := List.mem_map.mp hmem
    have hne := List.lookup_eq_none_iff.mp hx _ hentry
    simp at hne
  rw [Scope.add, List.map_append]
  refine List.nodup_append.mpr ⟨hinner, by simp, fun y hy z hz heq => hfresh ?_⟩
  have hz : z = x := List.mem_singleton.mp hz
  rwa [← hz, ← heq]

/-- The second scope has the names of the first one with their types, and further names that are new. -/
structure Grows (s t : Scope) : Prop where
  depth : t.depth = s.depth
  kept : ∀ x τ, s.find? x = some τ → t.find? x = some τ
  added : ∃ added, t.entries = s.entries ++ added ∧ (added.map Prod.fst).Nodup ∧
    ∀ entry ∈ added, s.find? entry.1 = none

theorem Grows.of_entries (hdepth : t.depth = s.depth) (hentries : s.entries <+: t.entries)
    (hnodup : (t.entries.map Prod.fst).Nodup) : s.Grows t := by
  obtain ⟨added, hadded⟩ := hentries
  rw [← hadded, List.map_append] at hnodup
  obtain ⟨-, hnew, hfresh⟩ := List.nodup_append.mp hnodup
  refine ⟨hdepth, fun x τ hx => ?_, added, hadded.symm, hnew, fun entry hentry => ?_⟩
  · rw [find?] at hx
    rw [find?, ← hadded, List.lookup_append, hx, Option.some_or]
  · rw [find?, List.lookup_eq_none_iff]
    intro old hold
    have hne := hfresh _ (List.mem_map_of_mem hold) _ (List.mem_map_of_mem hentry)
    simpa using Ne.symm hne

end Scope

namespace Checker

variable {c d : Checker}

/-- One move keeps the stack. -/
theorem stack_after (h : Scope.Stack c.scopes) (m : Move) : Scope.Stack (c.after m).scopes := by
  obtain ⟨s, ss, hc⟩ := List.exists_cons_of_ne_nil h.isOpen
  cases m with
  | enterProcedure => exact Scope.stack_outermost
  | push =>
    rw [hc] at h
    simpa [after, push, depth, hc] using h.push
  | pop =>
    cases ss with
    | nil => simpa [after, pop, hc] using h
    | cons t ss =>
      rw [hc] at h
      simpa [after, pop, hc] using h.pop
  | report f => exact h
  | declare x τ =>
    cases hx : s.find? x with
    | some σ => simpa [after, declare, hc, hx, report] using h
    | none =>
      rw [hc] at h
      simpa [after, declare, hc, hx] using h.add hx τ

/-- A run keeps the stack. -/
theorem stack_play (h : Scope.Stack c.scopes) (ms : List Move) : Scope.Stack (c.play ms).scopes := by
  induction ms generalizing c with
  | nil => exact h
  | cons m ms ih => exact ih (stack_after h m)

end Checker

/-! ## Calls -/

/-- What can be asked of a checker. -/
inductive Call where
  | enterProcedure
  | push
  | pop
  | declare (x : String) (τ : Ty)
  | checkExpr (e : Expr)
  | checkStmt (s : Stmt)
  | checkBlock (b : Block)
  | checkNested (b : Block)

namespace Checker

variable {c d : Checker}

def call (c : Checker) : Call → Checker
  | .enterProcedure => c.enterProcedure
  | .push => c.push
  | .pop => c.pop
  | .declare x τ => c.declare x τ
  | .checkExpr e => c.checkExpr e
  | .checkStmt s => c.checkStmt s
  | .checkBlock b => c.checkBlock b
  | .checkNested b => c.checkNested b

/-- One call after the other. -/
def callAll (c : Checker) (calls : List Call) : Checker :=
  calls.foldl call c

theorem exists_play_call (c : Checker) (k : Call) : ∃ ms, c.call k = c.play ms := by
  cases k with
  | enterProcedure => exact ⟨[.enterProcedure], rfl⟩
  | push => exact ⟨[.push], rfl⟩
  | pop => exact ⟨[.pop], rfl⟩
  | declare x τ => exact ⟨[.declare x τ], rfl⟩
  | checkExpr e => exact ⟨_, (c.play_exprMoves e).symm⟩
  | checkStmt s => exact ⟨_, (c.play_stmtMoves s).symm⟩
  | checkBlock b => exact ⟨_, (c.play_blockMoves b).symm⟩
  | checkNested b =>
    refine ⟨.push :: (c.push.blockMoves b ++ [.pop]), ?_⟩
    rw [play_cons, play_append, after, play_blockMoves]
    rfl

theorem stack_call (h : Scope.Stack c.scopes) (k : Call) : Scope.Stack (c.call k).scopes := by
  obtain ⟨ms, hms⟩ := c.exists_play_call k
  rw [hms]
  exact stack_play h ms

theorem stack_callAll (calls : List Call) (h : Scope.Stack c.scopes) : Scope.Stack (c.callAll calls).scopes := by
  induction calls generalizing c with
  | nil => exact h
  | cons k calls ih => exact ih (stack_call h k)

/-! ## What checking adds -/

/-- The second checker has all that the first one has. Its innermost scope may have grown; the others are the same. -/
structure OnlyAdds (c d : Checker) : Prop where
  scopes : ∃ s t ss, c.scopes = s :: ss ∧ d.scopes = t :: ss ∧ s.Grows t
  table : ∀ k, c.variablesAt k <+: d.variablesAt k
  faults : c.faults <+: d.faults

theorem Extends.onlyAdds (h : c.Extends d) (hstack : Scope.Stack d.scopes) : c.OnlyAdds d := by
  obtain ⟨s, t, ss, hc, hd, hdepth, hentries⟩ := h.scopes
  have hnodup := hstack.nodup t (by simp [hd])
  refine ⟨⟨s, t, ss, hc, hd, .of_entries hdepth hentries hnodup⟩, fun k => ?_, h.faults⟩
  rw [variablesAt_eq, variablesAt_eq]
  exact h.defined.filter _

/-- The scopes are a stack. Checking a statement or a block adds to its top and to the records, and only to the records
where scopes are opened for it; checking an expression adds faults only. -/
structure Disciplined (c : Checker) : Prop where
  isOpen : c.scopes ≠ []
  depths : c.scopes.reverse.map Scope.depth = List.range c.scopes.length
  checkStmt : ∀ s, c.OnlyAdds (c.checkStmt s)
  checkBlock : ∀ b, c.OnlyAdds (c.checkBlock b)
  checkNested : ∀ b, c.OnlyAdds (c.checkNested b) ∧ (c.checkNested b).scopes = c.scopes
  cond : ∀ e body alternative, (c.checkStmt (.cond e body alternative)).scopes = c.scopes
  switch : ∀ e arms, (c.checkStmt (.switch e arms)).scopes = c.scopes
  checkExpr : ∀ e, ∃ faults, c.checkExpr e = { c with faults := c.faults ++ faults }

/-- Every checker that comes from a new one by calls, in any order, keeps scope discipline. -/
theorem callAll_disciplined (calls : List Call) : (start.callAll calls).Disciplined := by
  have hstack : Scope.Stack (start.callAll calls).scopes := stack_callAll calls Scope.stack_outermost
  generalize start.callAll calls = c at hstack ⊢
  have hopen := hstack.isOpen
  refine ⟨hopen, hstack.depths, fun s => ?_, fun b => ?_, fun b => ?_, fun e body alternative => ?_, fun e arms => ?_,
    fun e => ⟨_, rfl⟩⟩
  · exact (checkStmt_extends s hopen).onlyAdds (stack_call hstack (.checkStmt s))
  · exact (checkBlock_extends b hopen).onlyAdds (stack_call hstack (.checkBlock b))
  · have hblock : c.push.Extends (c.push.checkBlock b) := checkBlock_extends b c.push_open
    exact ⟨(nested_extends hopen hblock).onlyAdds (stack_call hstack (.checkNested b)), scopes_checkNested hopen b⟩
  · exact scopes_checkStmt hopen rfl
  · exact scopes_checkStmt hopen rfl

end Checker

end AddressLines
