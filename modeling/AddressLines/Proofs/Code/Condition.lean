import AddressLines.Code.Line
import AddressLines.Compile
import AddressLines.Proofs.Grammar.Parts
import AddressLines.Proofs.Grammar.Exprs

/-!
# The conditions of arms, read again

An arm of a switch with a subject becomes a conditional that compares the subject with the guard. The comparison is
written without brackets, and so it may say something else: `a && b` compared with `c` is written as `a && b == c`, which
is `a` together with `b == c`. The comparison reads back as it was built exactly if it is in normal form, that is, if
the subject binds at least as strongly as a comparison and the guard more strongly.
-/

namespace AddressLines

/-! ## Subjects and guards -/

mutual

/-- The subject and the guard of every arm that has both, at any depth. -/
def Stmt.comparisons : Stmt → List (Expr × Expr)
  | .assign _ _ _ | .branch _ => []
  | .cond _ body none => Block.comparisons body
  | .cond _ body (some alternative) => Block.comparisons body ++ Block.comparisons alternative
  | .switch subject arms => Arm.allComparisons subject arms

def Block.comparisons : Block → List (Expr × Expr)
  | [] => []
  | s :: ss => s.comparisons ++ Block.comparisons ss

def Arm.allComparisons (subject : Expr) : List (Arm Stmt) → List (Expr × Expr)
  | [] => []
  | ⟨guard, body⟩ :: arms =>
    (if subject.isAbsent || guard.isAbsent then [] else [(subject, guard)]) ++
      (Block.comparisons body ++ Arm.allComparisons subject arms)

end

def Program.comparisons (p : Program) : List (Expr × Expr) :=
  p.procedures.flatMap fun q => Block.comparisons q.body

/-- Two of these expressions, neither of them absent. -/
structure Expr.Among (es : List Expr) (pair : Expr × Expr) : Prop where
  subject : pair.1 ∈ es
  guard : pair.2 ∈ es
  subject_present : pair.1.isAbsent = false
  guard_present : pair.2.isAbsent = false

theorem Expr.Among.mono {es es' : List Expr} {pair : Expr × Expr} (h : Among es pair) (hsub : es ⊆ es') :
    Among es' pair :=
  ⟨hsub h.subject, hsub h.guard, h.subject_present, h.guard_present⟩

mutual

theorem Stmt.among_of_mem_comparisons {pair : Expr × Expr} : ∀ {s : Stmt}, pair ∈ s.comparisons →
    Expr.Among s.exprs pair
  | .assign _ _ _, h => by cases h
  | .branch _, h => by cases h
  | .cond _ body none, h => (Block.among_of_mem_comparisons h).mono (List.subset_cons_self ..)
  | .cond _ body (some alternative), h => by
    rcases List.mem_append.mp h with h | h
    · exact (Block.among_of_mem_comparisons h).mono (by simp [Stmt.exprs])
    · exact (Block.among_of_mem_comparisons h).mono (by simp [Stmt.exprs])
  | .switch _ _, h => Arm.among_of_mem_comparisons h

theorem Block.among_of_mem_comparisons {pair : Expr × Expr} : ∀ {b : Block}, pair ∈ Block.comparisons b →
    Expr.Among (Block.exprs b) pair
  | [], h => by cases h
  | s :: ss, h => by
    rcases List.mem_append.mp h with h | h
    · exact (Stmt.among_of_mem_comparisons h).mono (by simp [Block.exprs])
    · exact (Block.among_of_mem_comparisons h).mono (by simp [Block.exprs])

theorem Arm.among_of_mem_comparisons {subject : Expr} {pair : Expr × Expr} : ∀ {arms : List (Arm Stmt)},
    pair ∈ Arm.allComparisons subject arms → Expr.Among (subject :: Arm.allExprs arms) pair
  | [], h => by cases h
  | ⟨guard, body⟩ :: arms, h => by
    rcases List.mem_append.mp h with h | h
    · split_ifs at h with habsent
      · cases h
      · obtain rfl : pair = (subject, guard) := List.mem_singleton.mp h
        obtain ⟨hsubject, hguard⟩ : subject.isAbsent = false ∧ guard.isAbsent = false := by simpa using habsent
        exact ⟨List.mem_cons_self .., by simp [Arm.allExprs], hsubject, hguard⟩
    · rcases List.mem_append.mp h with h | h
      · exact (Block.among_of_mem_comparisons h).mono (by grind [Arm.allExprs])
      · exact (Arm.among_of_mem_comparisons h).mono (by grind [Arm.allExprs])

end

theorem Program.among_of_mem_comparisons {p : Program} {pair : Expr × Expr} (h : pair ∈ p.comparisons) :
    Expr.Among p.exprs pair := by
  obtain ⟨q, hq, h⟩ := List.mem_flatMap.mp h
  exact (Block.among_of_mem_comparisons h).mono fun e he => List.mem_flatMap.mpr ⟨q, hq, he⟩

/-! ## Reading tokens again -/

/-- The tokens of a tree whose operands are in normal form are read without faults, and back as the tree exactly if it is
in normal form itself. -/
theorem Reader.expression_eq_iff {e : Expr} {ts : List Token} (h : e.Yields ts)
    (hfirst : e.first.isNormal BinOp.power = true)
    (hlinks : ∀ link ∈ e.chain, link.2.isNormal BinOp.power = true) :
    ((standard ts).expression .lowest ts).faults = [] ∧ ((standard ts).expression .lowest ts).rest = [] ∧
      (((standard ts).expression .lowest ts).value = e ↔ e.isNormal BinOp.power = true) := by
  have hgives : ((standard ts).expression .lowest (ts ++ [])).Gives
      (Expr.ofLinks BinOp.power e.first e.chain) [] :=
    expression_gives_ofLinks h hfirst (fun link hlink => ⟨hlinks link hlink, lowest_lt_power link.1⟩)
      (stops_of_kind (by simp))
  rw [List.append_nil] at hgives
  obtain ⟨hvalue, hrest, hfaults⟩ := hgives
  refine ⟨hfaults, hrest, fun heq => ?_, fun hnormal => ?_⟩
  · rw [← heq]
    exact (standard ts).isNormal_expression .lowest ts
  · rw [hvalue, Expr.ofLinks_first_chain hnormal]

theorem Reading.exists_yields {ts : List Token} (hnone : (Reading.ofTokens ts).program.faults = []) {e : Expr}
    (he : e ∈ (Reading.ofTokens ts).program.exprs) (hpresent : e.isAbsent = false) : ∃ es, e.Yields es := by
  rcases Reading.yields_of_mem_exprs hnone he with rfl | hyields
  · cases hpresent
  · exact hyields

/-- The operands of a comparison hold together beside it without brackets. -/
def Expr.HoldTogether (subject guard : Expr) : Prop :=
  (∀ o ∈ subject.root?, BinOp.eq.power ≤ o.power) ∧ ∀ o ∈ guard.root?, BinOp.eq.power < o.power

/-- The conditions of the arms in a source text that is read without faults. Each is written as the subject, the sign
`==` and the guard. It is in normal form exactly if its operands hold together, and its tokens, which are always read
without faults and to the end, are read as the condition itself in that case and only in that case. -/
theorem armCondition_reread_iff {file source : String} (hnone : (read file source).program.faults = [])
    {subject guard : Expr} (hpair : (subject, guard) ∈ (read file source).program.comparisons) :
    subject.armCondition guard = .binary subject .eq guard ∧
      (subject.armCondition guard).code = subject.code ++ " == " ++ guard.code ∧
      ((subject.armCondition guard).isNormal BinOp.power = true ↔ subject.HoldTogether guard) ∧
      (∃ ts, (subject.armCondition guard).Yields ts) ∧
      ∀ ts, (subject.armCondition guard).Yields ts →
        ((Reader.standard ts).expression .lowest ts).faults = [] ∧
        ((Reader.standard ts).expression .lowest ts).rest = [] ∧
        (((Reader.standard ts).expression .lowest ts).value = subject.armCondition guard ↔
          subject.HoldTogether guard) := by
  obtain ⟨hsubject, hguard, hpresent, hpresent'⟩ := Program.among_of_mem_comparisons hpair
  have hcondition : subject.armCondition guard = .binary subject .eq guard := by
    simp [Expr.armCondition, hpresent, hpresent']
  have hnormal : subject.isNormal BinOp.power = true := Reading.isNormal_of_mem_exprs hsubject
  have hnormal' : guard.isNormal BinOp.power = true := Reading.isNormal_of_mem_exprs hguard
  have hiff : (Expr.binary subject .eq guard).isNormal BinOp.power = true ↔ subject.HoldTogether guard := by
    rw [Expr.isNormal_binary]
    exact ⟨fun h => h.2.2, fun h => ⟨hnormal, hnormal', h⟩⟩
  rw [hcondition]
  refine ⟨rfl, ?_, hiff, ?_, ?_⟩
  · have hsign : " == " = " " ++ "==" ++ " " := rfl
    simp only [Expr.code, BinOp.symbol, hsign, String.append_assoc]
  · obtain ⟨ss, hss⟩ := Reading.exists_yields hnone hsubject hpresent
    obtain ⟨gs, hgs⟩ := Reading.exists_yields hnone hguard hpresent'
    exact ⟨ss ++ .bare .operator "==" :: gs, .binary hss ⟨rfl, rfl⟩ hgs⟩
  · intro ts hts
    have hlinks : ∀ link ∈ (Expr.binary subject .eq guard).chain, link.2.isNormal BinOp.power = true := by
      intro link hlink
      rcases Expr.mem_chain_binary.mp hlink with hlink | rfl | hlink
      · exact Expr.isNormal_of_mem_chain hnormal hlink
      · exact Expr.isNormal_first hnormal'
      · exact Expr.isNormal_of_mem_chain hnormal' hlink
    have hread := Reader.expression_eq_iff hts (Expr.isNormal_first (e := subject) hnormal) hlinks
    rwa [hiff] at hread

/-- A procedure with one switch. -/
def switchSource (subject guard : String) : String :=
  "package p;func f()\x7ba:=true;b:=true;c:=true;n:=1;switch " ++ subject ++ "\x7bcase " ++ guard ++ ":\x7d\x7d"

/-- A sum compared with a product. -/
theorem armCondition_reread_iff_sum :
    (read unnamedFile (switchSource "n+1" "n*2")).program.faults = [] ∧
      ∃ subject guard, subject = Expr.binary (.name "n") .add (.literal (.integer 1)) ∧
        guard = Expr.binary (.name "n") .mul (.literal (.integer 2)) ∧
        (subject, guard) ∈ (read unnamedFile (switchSource "n+1" "n*2")).program.comparisons ∧
        ∀ ts, (subject.armCondition guard).Yields ts →
          ((Reader.standard ts).expression .lowest ts).value = subject.armCondition guard := by
  have hnone : (read unnamedFile (switchSource "n+1" "n*2")).program.faults = [] := by decide +kernel
  have hpair : (Expr.binary (.name "n") .add (.literal (.integer 1)),
      Expr.binary (.name "n") .mul (.literal (.integer 2))) ∈
        (read unnamedFile (switchSource "n+1" "n*2")).program.comparisons := by decide +kernel
  refine ⟨hnone, _, _, rfl, rfl, hpair, fun ts hts => ?_⟩
  obtain ⟨-, -, -, -, hread⟩ := armCondition_reread_iff hnone hpair
  refine (hread ts hts).2.2.mpr ⟨?_, ?_⟩ <;> rintro _ ⟨⟩ <;> decide

/-- A conjunction compared with a name is torn apart: the source is read without faults and compiles, but the tokens of the
condition are those of another expression, a conjunction with a comparison in it. -/
theorem armCondition_torn :
    ∃ (subject guard : Expr) (ts : List Token), subject = .binary (.name "a") .and (.name "b") ∧ guard = .name "c" ∧
      (compile unnamedFile (switchSource "a&&b" "c")).toOption.isSome = true ∧
      (read unnamedFile (switchSource "a&&b" "c")).program.faults = [] ∧
      (subject, guard) ∈ (read unnamedFile (switchSource "a&&b" "c")).program.comparisons ∧
      (subject.armCondition guard).isNormal BinOp.power = false ∧
      (subject.armCondition guard).Yields ts ∧
      ((Reader.standard ts).expression .lowest ts).value =
        .binary (.name "a") .and (.binary (.name "b") .eq (.name "c")) := by
  have hname : ∀ x, (Expr.name x).Yields [.bare .identifier x] := fun x => .name ⟨rfl, rfl⟩
  have hsign : ∀ o : BinOp, (Token.bare .operator o.symbol).Is .operator o.symbol := fun o => ⟨rfl, rfl⟩
  refine ⟨_, _, [.bare .identifier "a", .bare .operator "&&", .bare .identifier "b", .bare .operator "==",
    .bare .identifier "c"], rfl, rfl, ?_, ?_, ?_, rfl, ?_, ?_⟩
  · decide +kernel
  · decide +kernel
  · decide +kernel
  · exact ((hname "a").binary (hsign .and) (hname "b")).binary (hsign .eq) (hname "c")
  · decide +kernel

end AddressLines
