import AddressLines.Proofs.Compile.Lines
import AddressLines.Proofs.Grammar.Faults
import AddressLines.Proofs.Token.Coverage

/-!
# The positions of faults

Every fault of form has a position: the start of a token, or the end of the last one. Positions do not go back along
the faults of a source text, and a source text whose package clause is unusable has a fault.

A fault is recorded for the place that reading has come to (`Reader.Located`), sometimes only after further tokens
have been taken. So its position is that of an end piece of the tokens, and the end pieces get shorter from fault to
fault. Tokens out of a source text stand one behind the other (`Token.InOrder`), and a shorter end piece has a later
position.
-/

namespace AddressLines

/-! ## Tokens in order -/

/-- Tokens of one file that stand one behind the other. -/
structure Token.InOrder (file : String) (ts : List Token) : Prop where
  file : ∀ t ∈ ts, t.span.file = file
  span : ∀ t ∈ ts, t.span.start ≤ t.span.stop
  pairwise : ts.Pairwise fun t u => t.span.stop ≤ u.span.start

theorem Token.Covers.file_eq {file : String} {offset : Nat} {cs : List Char} {ts : List Token}
    (h : Covers file offset cs ts) {t : Token} (ht : t ∈ ts) : t.span.file = file := by
  induction h with
  | finish => simp at ht
  | token _ _ _ _ ih =>
    rcases List.mem_cons.mp ht with rfl | ht
    · rfl
    · exact ih ht

theorem Token.scan_inOrder (file source : String) : InOrder file (scan file source) := by
  have hcovers : Covers file 0 source.toList (scan file source) := scanFrom_covers file none 0 source.toList
  refine ⟨fun t ht => hcovers.file_eq ht, fun t ht => ?_, hcovers.pairwise⟩
  exact Nat.le_of_lt (hcovers.slice ht).2.1

variable {file : String} {all ts us rest : List Token} {f : Fault} {faults : List Fault}

/-- Every token starts before the end of the last one. -/
theorem Token.InOrder.start_le_afterAll (h : Token.InOrder file all) {t : Token} (ht : t ∈ all) :
    t.start.offset ≤ (Position.afterAll all).offset := by
  obtain ⟨before, after, rfl⟩ := List.append_of_mem ht
  have hspan := h.span t ht
  rcases List.eq_nil_or_concat after with rfl | ⟨mid, last, rfl⟩
  · simpa [Position.afterAll, Token.start, Token.stop] using hspan
  · have hlast : last ∈ before ++ t :: mid.concat last := by simp
    have hbehind := (List.pairwise_cons.mp (List.pairwise_append.mp h.pairwise).2.1).1 last (by simp)
    have hspan' := h.span last hlast
    have hend : Position.afterAll (before ++ t :: mid.concat last) = last.stop := by
      simp [Position.afterAll, List.getLast?_append, List.getLast?_cons]
    rw [hend]
    show t.span.start ≤ last.span.stop
    omega

namespace Reader

/-! ## Positions of end pieces -/

/-- The position of an end piece is the start of a token or the end of the last one. -/
theorem position_standard (hall : all ≠ []) (hus : us <:+ all) :
    (∃ t ∈ all, (standard all).position us = t.start) ∨ ∃ t ∈ all.getLast?, (standard all).position us = t.stop := by
  cases us with
  | nil =>
    have hlast := List.getLast?_eq_some_getLast hall
    refine .inr ⟨all.getLast hall, hlast, ?_⟩
    simp [position, standard, Position.afterAll, hlast]
  | cons t us => exact .inl ⟨t, hus.subset (List.mem_cons_self ..), rfl⟩

/-- A shorter end piece has a later position. -/
theorem offset_position_le (h : Token.InOrder file all) (hts : ts <:+ all) (hus : us <:+ ts) :
    ((standard all).position ts).offset ≤ ((standard all).position us).offset := by
  cases ts with
  | nil =>
    obtain rfl := List.suffix_nil.mp hus
    exact Nat.le_refl _
  | cons t ts =>
    have ht : t ∈ all := hts.subset (List.mem_cons_self ..)
    cases us with
    | nil => exact h.start_le_afterAll ht
    | cons u us =>
      rcases List.suffix_cons_iff.mp hus with heq | hinner
      · obtain rfl : u = t := (List.cons.inj heq).1
        exact Nat.le_refl _
      · have hpairwise := List.pairwise_cons.mp (h.pairwise.sublist hts.sublist)
        have hspan := h.span t ht
        have hbehind := hpairwise.1 u (hinner.subset (List.mem_cons_self ..))
        show t.span.start ≤ u.span.start
        omega

/-! ## Positions of faults -/

theorem FaultAt.position_eq {r : Reader} (h : r.FaultAt us f) : f.position = some (r.position us) := by
  cases h <;> rfl

/-- The faults that are recorded from a place on have positions of end pieces that get shorter. -/
theorem Located.positions (hall : Token.InOrder file all) (h : (standard all).Located ts rest faults)
    (hts : ts <:+ all) :
    ∃ ps : List Position, faults.map Fault.position = ps.map some ∧
      (∀ p ∈ ps, ∃ us, us <:+ ts ∧ p = (standard all).position us) ∧ ps.Pairwise fun p q => p.offset ≤ q.offset := by
  induction h with
  | nil => exact ⟨[], rfl, by simp, .nil⟩
  | @cons ts us rest f faults hus hf _ ih =>
    obtain ⟨ps, hfaults, hplaces, hpairwise⟩ := ih (hus.trans hts)
    refine ⟨(standard all).position us :: ps, ?_, ?_, .cons ?_ hpairwise⟩
    · rw [List.map_cons, List.map_cons, hfaults, hf.position_eq]
    · intro p hp
      rcases List.mem_cons.mp hp with rfl | hp
      · exact ⟨us, hus, rfl⟩
      · obtain ⟨vs, hvs, rfl⟩ := hplaces p hp
        exact ⟨vs, hvs.trans hus, rfl⟩
    · intro p hp
      obtain ⟨vs, hvs, rfl⟩ := hplaces p hp
      exact offset_position_le hall (hus.trans hts) hvs

end Reader

/-! ## Readings that stop at the package clause -/

/-- Without a usable package clause nothing but a fault comes out. -/
theorem Reading.of_not_completed (hts : ∀ t ∈ ts, t.IsShaped) (h : (Reading.ofTokens ts).completed = false) :
    (Reading.ofTokens ts).program.faults ≠ [] ∧ (Reading.ofTokens ts).program.package = none ∧
      (Reading.ofTokens ts).program.procedures = [] := by
  cases hclause : ((Reader.standard ts).packageClause ts).value with
  | some name => simp [Reading.ofTokens, hclause] at h
  | none =>
    simp only [Reading.ofTokens, hclause]
    refine ⟨fun hnone => ?_, trivial, trivial⟩
    obtain ⟨x, hx, -⟩ := Reader.packageClause_eq_some hts hnone
    simp [hclause] at hx

/-- Each fault of form of a source text has a position. If there is a token at all, it is a position in the file of the
source, namely the start of a token or the end of the last one. The offsets do not go down from fault to fault. Where
reading stops at the package clause there is a fault and nothing else. -/
theorem read_fault_positions (file source : String) :
    (∃ ps : List Position, (read file source).program.faults.map Fault.position = ps.map some ∧
      (Token.scan file source ≠ [] → ∀ p ∈ ps, p.file = file ∧
        ((∃ t ∈ Token.scan file source, p = t.start) ∨ ∃ t ∈ (Token.scan file source).getLast?, p = t.stop)) ∧
      ps.Pairwise fun p q => p.offset ≤ q.offset) ∧
    ((read file source).completed = false →
      (read file source).program.faults ≠ [] ∧ (read file source).program.package = none ∧
        (read file source).program.procedures = []) := by
  have horder := Token.scan_inOrder file source
  obtain ⟨rest, hlocated⟩ := Reading.located (Token.scan file source)
  obtain ⟨ps, hfaults, hplaces, hpairwise⟩ := hlocated.positions horder List.suffix_rfl
  refine ⟨⟨ps, hfaults, fun hsome p hp => ?_, hpairwise⟩, ?_⟩
  · obtain ⟨us, hus, rfl⟩ := hplaces p hp
    have hplace := Reader.position_standard hsome hus
    refine ⟨?_, hplace⟩
    rcases hplace with ⟨t, ht, hstart⟩ | ⟨t, ht, hstop⟩
    · rw [hstart]
      exact horder.file t ht
    · rw [hstop]
      exact horder.file t (List.mem_of_getLast? ht)
  · exact Reading.of_not_completed fun t ht => Token.isShaped_of_mem_scan ht

/-- A sign is missing in it, and at its end a value and a brace. -/
def gappySource : String :=
  "package p;func f()\x7bx 1\ny :="

def gappyPositions : List Position :=
  [⟨21, "f"⟩, ⟨21, "f"⟩, ⟨27, "f"⟩, ⟨27, "f"⟩]

theorem read_fault_positions_gappy :
    Token.scan "f" gappySource ≠ [] ∧
      (read "f" gappySource).program.faults.map Fault.position = gappyPositions.map some ∧
      (∀ p ∈ gappyPositions, p.file = "f" ∧
        ((∃ t ∈ Token.scan "f" gappySource, p = t.start) ∨
          ∃ t ∈ (Token.scan "f" gappySource).getLast?, p = t.stop)) ∧
      (read "f" "func f()").completed = false ∧ (read "f" "func f()").program.faults ≠ [] := by
  have htokens : Token.scan "f" gappySource ≠ [] := by decide +kernel
  have hpositions : (read "f" gappySource).program.faults.map Fault.position = gappyPositions.map some := by
    decide +kernel
  have hstopped : (read "f" "func f()").completed = false := by decide +kernel
  obtain ⟨⟨ps, hfaults, hplaces, -⟩, -⟩ := read_fault_positions "f" gappySource
  obtain rfl : ps = gappyPositions :=
    (List.map_inj_right fun _ _ => Option.some.inj).mp (hfaults.symm.trans hpositions)
  exact ⟨htokens, hpositions, hplaces htokens, hstopped, ((read_fault_positions "f" "func f()").2 hstopped).1⟩

end AddressLines
