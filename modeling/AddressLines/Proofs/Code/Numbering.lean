import AddressLines.Code.Line
import AddressLines.Proofs.Code.Address

/-!
# The numbering of lines

The stated lines of a program stand in the order of their addresses and no two share one. Under the opening line of
a procedure or a conditional the lines one level down are numbered from one on without a gap. The lines of every
block are `Numbered`; lines that follow one another and lines under an opening line are so again.
-/

namespace AddressLines

namespace Line

def isStated (l : Line) : Bool :=
  l.marker == 'Q'

/-- The line states something that begins with a word. -/
def begins (word : String) (l : Line) : Bool :=
  l.isStated && word.toList.isPrefixOf l.content.toList

def opensProcedure (l : Line) : Bool :=
  l.begins "PROCEDURE "

def closesProcedure (l : Line) : Bool :=
  l.begins "ENDPROC "

def opensBranch (l : Line) : Bool :=
  l.begins "IF "

/-- The stated lines, the ends of procedures apart. -/
def asked (ls : List Line) : List Line :=
  ls.filter fun l => l.isStated && !l.closesProcedure

/-- The stated lines one level below an address. -/
def below (a : Address) (ls : List Line) : List Line :=
  ls.filter fun l => l.isStated && l.address.isBelow a

/-- The address of the line comes first. -/
def Precedes (l m : Line) : Prop :=
  l.address.segments < m.address.segments

/-- Each answer directly follows a stated line of the same address. -/
def Answered (ls : List Line) : Prop :=
  ∀ before l after, ls = before ++ l :: after → l.marker = 'A' →
    ∃ q, before.getLast? = some q ∧ q.marker = 'Q' ∧ q.address = l.address

/-- Below the opening line the numbers run from one on, and below a conditional they end with its end. -/
structure Encloses (ls : List Line) (l : Line) : Prop where
  numbers : ∃ k, (below l.address ls).map (·.address.segments) = (List.range' 1 k).map (l.address.segments ++ [·])
  closing : l.opensBranch = true → ∃ m, (below l.address ls).getLast? = some m ∧ m.content = "END"

/-- Lines in the order of their addresses, all below `ns` with numbers from `n` on, `k` of them. -/
structure Ordered (ns : List Nat) (n k : Nat) (ls : List Line) : Prop where
  markers : ∀ l ∈ ls, l.marker = 'Q' ∨ l.marker = 'A'
  within : ∀ l ∈ ls, ∃ i ms, n ≤ i ∧ i < n + k ∧ l.address.segments = ns ++ i :: ms
  increasing : (asked ls).Pairwise Precedes
  answered : Answered ls
  encloses : ∀ l ∈ ls, (l.opensProcedure || l.opensBranch) = true → Encloses ls l

/-- The lines of statements: those one level below `ns` have the numbers `n, …, n + k - 1`. -/
structure Numbered (ns : List Nat) (n k : Nat) (ls : List Line) : Prop extends Ordered ns n k ls where
  level : (below ⟨ns⟩ ls).map (·.address.segments) = (List.range' n k).map (ns ++ [·])
  inside : ∀ l ∈ ls, l.opensProcedure = false ∧ l.closesProcedure = false

variable {ns : List Nat} {n k m : Nat} {ls ms : List Line} {a : Address}

theorem below_append (a : Address) (ls ms : List Line) : below a (ls ++ ms) = below a ls ++ below a ms :=
  List.filter_append ..

theorem asked_append (ls ms : List Line) : asked (ls ++ ms) = asked ls ++ asked ms :=
  List.filter_append ..

theorem mem_asked {l : Line} (h : l ∈ asked ls) : l ∈ ls :=
  (List.mem_filter.mp h).1

/-- Lines that have other numbers are not below an address. -/
theorem Ordered.below_eq_nil (h : Ordered ns n k ls) {i : Nat} {is : List Nat} (ha : a.segments = ns ++ i :: is)
    (hi : i < n ∨ n + k ≤ i) : below a ls = [] := by
  rw [below, List.filter_eq_nil_iff]
  intro l hl hbelow
  obtain ⟨j, js, hlow, hhigh, hsegments⟩ := h.within l hl
  obtain ⟨d, hd⟩ := Address.isBelow_iff.mp (Bool.and_eq_true_iff.mp hbelow).2
  rw [hsegments, ha, List.append_assoc, List.append_cancel_left_eq, List.cons_append] at hd
  obtain rfl : j = i := (List.cons.inj hd).1
  omega

/-! ## Lines after lines -/

/-- Lines whose answers follow once other lines stand before them. -/
theorem Answered.append_of (h : Answered ls)
    (h' : ∀ before l after, ms = before ++ l :: after → l.marker = 'A' →
      ∃ q, (ls ++ before).getLast? = some q ∧ q.marker = 'Q' ∧ q.address = l.address) : Answered (ls ++ ms) := by
  intro before l after heq hl
  rcases List.append_eq_append_iff.mp heq with ⟨mid, rfl, hms⟩ | ⟨mid, rfl, hmid⟩
  · exact h' mid l after hms hl
  · cases mid with
    | nil => simpa using h' [] l after (by simpa using hmid.symm) hl
    | cons l' mid =>
      obtain ⟨rfl, rfl⟩ : l = l' ∧ after = mid ++ ms := by simpa using hmid
      exact h before l mid rfl hl

theorem Answered.append (h : Answered ls) (h' : Answered ms) : Answered (ls ++ ms) := by
  refine h.append_of fun before l after heq hl => ?_
  obtain ⟨q, hq, hanswer⟩ := h' before l after heq hl
  exact ⟨q, by simp [hq], hanswer⟩

theorem Encloses.congr {ls' : List Line} {l : Line} (h : Encloses ls l)
    (heq : below l.address ls' = below l.address ls) : Encloses ls' l :=
  ⟨heq ▸ h.numbers, heq ▸ h.closing⟩

theorem Ordered.append (h : Ordered ns n k ls) (h' : Ordered ns (n + k) m ms) :
    Ordered ns n (k + m) (ls ++ ms) := by
  refine ⟨List.forall_mem_append.mpr ⟨h.markers, h'.markers⟩, List.forall_mem_append.mpr ⟨?_, ?_⟩, ?_,
    h.answered.append h'.answered, List.forall_mem_append.mpr ⟨?_, ?_⟩⟩
  · intro l hl
    obtain ⟨i, is, hlow, hhigh, heq⟩ := h.within l hl
    exact ⟨i, is, hlow, by omega, heq⟩
  · intro l hl
    obtain ⟨i, is, hlow, hhigh, heq⟩ := h'.within l hl
    exact ⟨i, is, by omega, by omega, heq⟩
  · rw [asked_append, List.pairwise_append]
    refine ⟨h.increasing, h'.increasing, fun l hl l' hl' => ?_⟩
    obtain ⟨i, is, -, hi, heq⟩ := h.within l (mem_asked hl)
    obtain ⟨j, js, hj, -, heq'⟩ := h'.within l' (mem_asked hl')
    rw [Precedes, heq, heq']
    exact Address.segments_lt_of_lt (by omega) is js
  · intro l hl hopens
    obtain ⟨i, is, -, hi, heq⟩ := h.within l hl
    have hnone : below l.address ms = [] := h'.below_eq_nil heq (.inl hi)
    exact (h.encloses l hl hopens).congr (by rw [below_append, hnone, List.append_nil])
  · intro l hl hopens
    obtain ⟨i, is, hi, -, heq⟩ := h'.within l hl
    have hnone : below l.address ls = [] := h.below_eq_nil heq (.inr hi)
    exact (h'.encloses l hl hopens).congr (by rw [below_append, hnone, List.nil_append])

theorem Numbered.append (h : Numbered ns n k ls) (h' : Numbered ns (n + k) m ms) :
    Numbered ns n (k + m) (ls ++ ms) := by
  refine ⟨h.toOrdered.append h'.toOrdered, ?_, List.forall_mem_append.mpr ⟨h.inside, h'.inside⟩⟩
  rw [below_append, List.map_append, h.level, h'.level, ← List.map_append, List.range'_append_1]

/-! ## Lines under a line -/

theorem Ordered.nil : Ordered ns n k [] := by
  refine ⟨by simp, by simp, by simp [asked], ?_, by simp⟩
  intro before l after h
  simp at h

theorem answered_singleton {l : Line} (hl : l.marker = 'Q') : Answered [l] := by
  intro before l' after heq hanswer
  cases before with
  | nil =>
    obtain ⟨rfl, -⟩ : l = l' ∧ [] = after := by simpa using heq
    rw [hl] at hanswer
    exact absurd hanswer (by decide)
  | cons => simp at heq

/-- Lines inside an address are more than one level below the level of that address. -/
theorem below_outer_eq_nil (h : Ordered (ns ++ [n]) m k ls) : below ⟨ns⟩ ls = [] := by
  rw [below, List.filter_eq_nil_iff]
  intro l hl hbelow
  obtain ⟨i, is, -, -, heq⟩ := h.within l hl
  obtain ⟨d, hd⟩ := Address.isBelow_iff.mp (Bool.and_eq_true_iff.mp hbelow).2
  have hlength := congrArg List.length (heq.symm.trans hd)
  simp at hlength

/-- A line is not below an address that is at least as deep. -/
theorem below_singleton_eq_nil {l : Line} (h : l.address.segments.length ≤ a.segments.length) : below a [l] = [] := by
  rw [below, List.filter_eq_nil_iff]
  intro l' hl' hbelow
  obtain rfl : l' = l := by simpa using hl'
  obtain ⟨d, hd⟩ := Address.isBelow_iff.mp (Bool.and_eq_true_iff.mp hbelow).2
  have hlength := congrArg List.length hd
  simp only [List.length_append, List.length_singleton] at hlength
  omega

/-- A stated line and the lines inside its address. -/
theorem Ordered.opening {l : Line} (hmarker : l.marker = 'Q') (haddress : l.address.segments = ns ++ [n])
    (h : Ordered (ns ++ [n]) 1 k ls) (hl : (l.opensProcedure || l.opensBranch) = true → Encloses ls l) :
    Ordered ns n 1 (l :: ls) := by
  have hself : below l.address [l] = [] := below_singleton_eq_nil (Nat.le_refl _)
  refine ⟨?_, ?_, ?_, (answered_singleton hmarker).append h.answered, ?_⟩
  · exact List.forall_mem_cons.mpr ⟨.inl hmarker, h.markers⟩
  · refine List.forall_mem_cons.mpr ⟨⟨n, [], by omega, by omega, haddress⟩, fun l' hl' => ?_⟩
    obtain ⟨i, is, -, -, heq⟩ := h.within l' hl'
    exact ⟨n, i :: is, by omega, by omega, by simp [heq]⟩
  · have hsplit : asked (l :: ls) = asked [l] ++ asked ls := asked_append [l] ls
    rw [hsplit, List.pairwise_append]
    have hone : (asked [l]).Pairwise Precedes := (List.pairwise_singleton Precedes l).sublist List.filter_sublist
    refine ⟨hone, h.increasing, fun l₁ hl₁ l₂ hl₂ => ?_⟩
    obtain rfl : l₁ = l := by simpa using mem_asked hl₁
    obtain ⟨i, is, -, -, heq⟩ := h.within l₂ (mem_asked hl₂)
    rw [Precedes, haddress, heq]
    exact Address.segments_lt_append i is
  · have hsplit : ∀ b, below b (l :: ls) = below b [l] ++ below b ls := fun b => below_append b [l] ls
    intro l' hl' hopens
    rcases List.mem_cons.mp hl' with rfl | hl'
    · exact (hl hopens).congr (by rw [hsplit, hself, List.nil_append])
    · obtain ⟨i, is, -, -, heq⟩ := h.within l' hl'
      have hnone : below l'.address [l] = [] := below_singleton_eq_nil (by simp [haddress, heq])
      exact (h.encloses l' hl' hopens).congr (by rw [hsplit, hnone, List.nil_append])

/-- A further line at the address of the first one, an answer or the end of a procedure. -/
theorem Ordered.concat {l : Line} (h : Ordered ns n 1 ls) (hmarker : l.marker = 'Q' ∨ l.marker = 'A')
    (haddress : l.address.segments = ns ++ [n]) (hasked : (l.isStated && !l.closesProcedure) = false)
    (hopens : (l.opensProcedure || l.opensBranch) = false)
    (hanswer : l.marker = 'A' → ∃ q, ls.getLast? = some q ∧ q.marker = 'Q' ∧ q.address = l.address) :
    Ordered ns n 1 (ls ++ [l]) := by
  refine ⟨?_, ?_, ?_, ?_, ?_⟩
  · exact List.forall_mem_append.mpr ⟨h.markers, List.forall_mem_singleton.mpr hmarker⟩
  · rw [List.forall_mem_append]
    exact ⟨h.within, List.forall_mem_singleton.mpr ⟨n, [], by omega, by omega, haddress⟩⟩
  · have hnone : asked [l] = [] := by simp [asked, hasked]
    rw [asked_append, hnone, List.append_nil]
    exact h.increasing
  · refine h.answered.append_of fun before l' after heq hl' => ?_
    cases before with
    | nil =>
      obtain ⟨rfl, -⟩ : l = l' ∧ [] = after := by simpa using heq
      simpa using hanswer hl'
    | cons => simp at heq
  · intro l' hl' hl'opens
    rcases List.mem_append.mp hl' with hl' | hl'
    · obtain ⟨i, is, -, -, heq⟩ := h.within l' hl'
      have hnone : below l'.address [l] = [] := below_singleton_eq_nil (by simp [haddress, heq])
      exact (h.encloses l' hl' hl'opens).congr (by rw [below_append, hnone, List.append_nil])
    · obtain rfl : l' = l := by simpa using hl'
      simp [hopens] at hl'opens

/-! ## The lines of a block -/

/-- The content begins with none of the words that open or close. -/
def isPlain (content : String) : Bool :=
  ["PROCEDURE ", "ENDPROC ", "IF "].all fun word => !word.toList.isPrefixOf content.toList

theorem begins_of_isPlain {content word : String} {marker : Char} (h : isPlain content = true)
    (hword : word ∈ ["PROCEDURE ", "ENDPROC ", "IF "]) : (Line.mk marker a content).begins word = false := by
  have hnot := List.all_eq_true.mp h word hword
  simp only [Bool.not_eq_true'] at hnot
  rw [begins, hnot, Bool.and_false]

theorem isPlain_codeName (x text : String) : isPlain (codeName x ++ text) = true := by
  simp [isPlain, codeName, List.isPrefixOf_cons_cons]

theorem Numbered.nil : Numbered ns n 0 [] :=
  ⟨.nil, by simp [below], by simp⟩

/-- A line that opens and closes nothing takes one number. -/
theorem Numbered.single {content : String} (h : isPlain content = true) :
    Numbered ns n 1 [⟨'Q', ⟨ns ++ [n]⟩, content⟩] := by
  have hprocedure : (Line.mk 'Q' ⟨ns ++ [n]⟩ content).opensProcedure = false := begins_of_isPlain h (by simp)
  have hends : (Line.mk 'Q' ⟨ns ++ [n]⟩ content).closesProcedure = false := begins_of_isPlain h (by simp)
  have hbranch : (Line.mk 'Q' ⟨ns ++ [n]⟩ content).opensBranch = false := begins_of_isPlain h (by simp)
  refine ⟨.opening rfl rfl (.nil (k := 0)) ?_, ?_, ?_⟩
  · simp [hprocedure, hbranch]
  · simp [below, isStated, Address.isBelow]
  · simp [hprocedure, hends]

/-- An answer shares the number of the line before it. -/
theorem Numbered.answer {content answer : String} (h : isPlain content = true) :
    Numbered ns n 1 [⟨'Q', ⟨ns ++ [n]⟩, content⟩, ⟨'A', ⟨ns ++ [n]⟩, answer⟩] := by
  have hline : Numbered ns n 1 [⟨'Q', ⟨ns ++ [n]⟩, content⟩] := .single h
  have hnot : ∀ word, (Line.mk 'A' ⟨ns ++ [n]⟩ answer).begins word = false := by simp [begins, isStated]
  have hopens : ((Line.mk 'A' ⟨ns ++ [n]⟩ answer).opensProcedure ||
      (Line.mk 'A' ⟨ns ++ [n]⟩ answer).opensBranch) = false := by
    simp [opensProcedure, opensBranch, hnot]
  refine ⟨hline.toOrdered.concat (.inr rfl) rfl (by simp [isStated]) hopens ?_, ?_, ?_⟩
  · exact fun _ => ⟨_, rfl, rfl, rfl⟩
  · simp [below, isStated, Address.isBelow]
  · exact List.forall_mem_cons.mpr ⟨hline.inside _ (by simp), by simp [opensProcedure, closesProcedure, hnot]⟩

/-- A conditional takes one number; its end is the last line below it. -/
theorem Numbered.branch {condition : String} (h : Numbered (ns ++ [n]) 1 k ls) :
    Numbered ns n 1 (⟨'Q', ⟨ns ++ [n]⟩, "IF " ++ condition ++ " THEN BEGIN"⟩ :: ls ++
      [⟨'Q', ⟨ns ++ [n] ++ [1 + k]⟩, "END"⟩]) := by
  have hend : Numbered (ns ++ [n]) (1 + k) 1 [⟨'Q', ⟨ns ++ [n] ++ [1 + k]⟩, "END"⟩] := .single (by decide)
  have hinner := h.append hend
  have hprocedure : ∀ word ∈ ["PROCEDURE ", "ENDPROC "],
      (Line.mk 'Q' ⟨ns ++ [n]⟩ ("IF " ++ condition ++ " THEN BEGIN")).begins word = false := by
    simp [begins, List.isPrefixOf_cons_cons]
  rw [List.cons_append]
  refine ⟨.opening rfl rfl hinner.toOrdered fun _ => ⟨⟨k + 1, hinner.level⟩, fun _ => ?_⟩, ?_, ?_⟩
  · refine ⟨⟨'Q', ⟨ns ++ [n] ++ [1 + k]⟩, "END"⟩, ?_, rfl⟩
    simp [below, isStated, Address.isBelow]
  · have hsplit := below_append ⟨ns⟩ [⟨'Q', ⟨ns ++ [n]⟩, "IF " ++ condition ++ " THEN BEGIN"⟩]
      (ls ++ [⟨'Q', ⟨ns ++ [n] ++ [1 + k]⟩, "END"⟩])
    rw [List.singleton_append] at hsplit
    rw [hsplit, below_outer_eq_nil hinner.toOrdered]
    simp [below, isStated, Address.isBelow]
  · exact List.forall_mem_cons.mpr ⟨⟨hprocedure _ (by simp), hprocedure _ (by simp)⟩, hinner.inside⟩

theorem assignLines_numbered (x : String) (e : Expr) : Numbered ns n 1 (assignLines ⟨ns ++ [n]⟩ x e) := by
  have hplain : isPlain (codeName x) = true := by simpa using isPlain_codeName x ""
  cases e with
  | literal l => exact .answer hplain
  | _ => exact .single (by rw [String.append_assoc]; exact isPlain_codeName x _)

mutual

theorem lines_numbered : ∀ (s : Step) (ns : List Nat) (n : Nat), Numbered ns n 1 (s.lines ⟨ns ++ [n]⟩)
  | .assign x e, ns, n => by
    rw [Step.lines]
    exact assignLines_numbered x e
  | .branch word, ns, n => by
    rw [Step.lines]
    exact .single (by cases word <;> decide)
  | .choose c body none, ns, n => by
    rw [Step.lines, Address.child, Address.skip_append]
    exact .branch (linesFrom_numbered body (ns ++ [n]) 1)
  | .choose c body (some alternative), ns, n => by
    have helse : Numbered (ns ++ [n]) (1 + body.length) 1
        [⟨'Q', ⟨ns ++ [n] ++ [1 + body.length]⟩, "END ELSE BEGIN"⟩] := .single (by decide)
    have hparts := (linesFrom_numbered body (ns ++ [n]) 1).append
      (helse.append (linesFrom_numbered alternative (ns ++ [n]) (1 + body.length + 1)))
    have hend : 1 + body.length + 1 + alternative.length = 1 + (body.length + (1 + alternative.length)) := by omega
    rw [Step.lines, Address.child, Address.skip_append, Address.next_append, Address.skip_append, hend]
    simpa only [List.cons_append, List.append_assoc, List.nil_append] using hparts.branch

theorem linesFrom_numbered : ∀ (ss : List Step) (ns : List Nat) (n : Nat),
    Numbered ns n ss.length (linesFrom ⟨ns ++ [n]⟩ ss)
  | [], ns, n => by
    rw [linesFrom]
    exact .nil
  | s :: ss, ns, n => by
    rw [linesFrom, Address.next_append, List.length_cons, Nat.add_comm]
    exact (lines_numbered s ns n).append (linesFrom_numbered ss ns (n + 1))

end

/-! ## Procedures -/

theorem procedure_ordered (q : Procedure) (i : Nat) : Ordered [1] i 1 (q.lines ⟨[1] ++ [i]⟩) := by
  have hbody := linesFrom_numbered (steps q.body) ([1] ++ [i]) 1
  have hopening : Ordered [1] i 1 (⟨'Q', ⟨[1] ++ [i]⟩, "PROCEDURE " ++ codeName q.name⟩ ::
      linesFrom ⟨[1] ++ [i] ++ [1]⟩ (steps q.body)) := by
    refine .opening rfl rfl hbody.toOrdered fun _ => ⟨⟨_, hbody.level⟩, fun hbranch => ?_⟩
    simp [opensBranch, begins, List.isPrefixOf_cons_cons] at hbranch
  refine hopening.concat (.inl rfl) rfl ?_ ?_ fun hanswer => absurd hanswer (by simp)
  · simp [closesProcedure, begins, isStated]
  · simp [opensProcedure, opensBranch, begins, List.isPrefixOf_cons_cons]

theorem procedureLines_ordered (qs : List Procedure) (i : Nat) :
    Ordered [1] i qs.length (procedureLines ⟨[1] ++ [i]⟩ qs) := by
  induction qs generalizing i with
  | nil => exact .nil
  | cons q qs ih =>
    rw [procedureLines, Address.next_append, List.length_cons, Nat.add_comm]
    exact (procedure_ordered q i).append (ih (i + 1))

/-- The lines that open and close procedures. -/
def bounds (ls : List Line) : List Line :=
  ls.filter fun l => l.opensProcedure || l.closesProcedure

/-- The lines that open and close the procedure of a number. -/
def boundsAt (i : Nat) (q : Procedure) : List Line :=
  [⟨'Q', ⟨[1, i]⟩, "PROCEDURE " ++ codeName q.name⟩, ⟨'Q', ⟨[1, i]⟩, "ENDPROC " ++ codeName q.name⟩]

theorem bounds_procedure (q : Procedure) (i : Nat) : bounds (q.lines ⟨[1, i]⟩) = boundsAt i q := by
  have hbody : bounds (linesFrom ⟨[1, i] ++ [1]⟩ (steps q.body)) = [] := by
    rw [bounds, List.filter_eq_nil_iff]
    intro l hl
    obtain ⟨hopens, hcloses⟩ := (linesFrom_numbered (steps q.body) [1, i] 1).inside l hl
    simp [hopens, hcloses]
  rw [bounds] at hbody
  rw [Procedure.lines, bounds, List.filter_append, List.filter_cons, Address.child, hbody]
  simp [boundsAt, opensProcedure, closesProcedure, begins, isStated, List.isPrefixOf_cons_cons]

theorem bounds_procedureLines (qs : List Procedure) (i : Nat) :
    bounds (procedureLines ⟨[1, i]⟩ qs) = (qs.zipIdx i).flatMap fun (q, j) => boundsAt j q := by
  induction qs generalizing i with
  | nil => rfl
  | cons q qs ih =>
    have hnext : (Address.mk [1, i]).next = ⟨[1, i + 1]⟩ := Address.next_append [1] i
    have hsplit : bounds (q.lines ⟨[1, i]⟩ ++ procedureLines ⟨[1, i + 1]⟩ qs) =
        bounds (q.lines ⟨[1, i]⟩) ++ bounds (procedureLines ⟨[1, i + 1]⟩ qs) := List.filter_append ..
    rw [procedureLines, hnext, hsplit, bounds_procedure, ih, List.zipIdx_cons, List.flatMap_cons]

/-! ## Indentation -/

/-- The tabs at the start of the text of a line. -/
def tabs (l : Line) : Nat :=
  (l.text.toList.takeWhile (· == '\t')).length

theorem tabs_eq {l : Line} (h : l.marker = 'Q' ∨ l.marker = 'A') : l.tabs = l.address.segments.length - 1 := by
  have hmarker : (l.marker == '\t') = false := by
    rcases h with h | h <;> simp [h]
  have htext : l.text.toList = List.replicate (l.address.depth - 1) '\t' ++
      l.marker :: (l.address.text ++ " " ++ l.content ++ "\n").toList := by
    simp [text, Address.indent]
  rw [tabs, htext, List.takeWhile_append_of_pos (by simp), List.takeWhile_cons_of_neg (by simp [hmarker])]
  simp [Address.depth]

end Line

/-! ## Programs -/

theorem steps_append (b b' : Block) : steps (b ++ b') = steps b ++ steps b' := by
  induction b with
  | nil => rfl
  | cons s b ih => rw [List.cons_append, steps, steps, ih, List.append_assoc]

/-- How the lines of a program are addressed. -/
structure Program.Addressed (p : Program) : Prop where
  /-- The stated lines are in the order of their addresses. -/
  increasing : (Line.asked p.lines).Pairwise Line.Precedes
  /-- No two of them are written with the same address. -/
  distinct : ((Line.asked p.lines).map (·.address.text)).Nodup
  answered : Line.Answered p.lines
  /-- The procedures open and close at `1.1`, `1.2` and so on. -/
  bounds : Line.bounds p.lines = (p.procedures.zipIdx 1).flatMap fun (q, i) => Line.boundsAt i q
  encloses : ∀ l ∈ p.lines, (l.opensProcedure || l.opensBranch) = true → Line.Encloses p.lines l
  indented : ∀ l ∈ p.lines, l.tabs = l.address.segments.length - 1

/-- The lines of every program are addressed in order, and a switch without arms takes no number in any block. -/
theorem Program.addressed_lines (p : Program) : p.Addressed ∧
    ∀ (a : Address) (before after : Block) (e : Expr),
      linesFrom a (steps (before ++ .switch e [] :: after)) = linesFrom a (steps (before ++ after)) := by
  have h : Line.Ordered [1] 1 p.procedures.length p.lines := Line.procedureLines_ordered p.procedures 1
  refine ⟨⟨h.increasing, ?_, h.answered, Line.bounds_procedureLines p.procedures 1, h.encloses, ?_⟩, ?_⟩
  · refine List.pairwise_map.mpr (h.increasing.imp fun {l m} hlt htext => ?_)
    rw [Line.Precedes, Address.text_injective htext] at hlt
    exact List.lt_irrefl _ hlt
  · exact fun l hl => Line.tabs_eq (h.markers l hl)
  · intro a before after e
    rw [steps_append, steps_append, steps, Stmt.step?, armStep?, Option.toList_none, List.nil_append]

example : (Program.lines { procedures := [⟨"f", [.switch .absent [],
      .cond (.name "a") [] (some [.branch .breaks]), .assign "b" true (.literal (.integer 1))]⟩] }).map
        (fun l => (l.marker, l.address.segments)) =
    [('Q', [1, 1]), ('Q', [1, 1, 1]), ('Q', [1, 1, 1, 1]), ('Q', [1, 1, 1, 2]), ('Q', [1, 1, 1, 3]),
      ('Q', [1, 1, 2]), ('A', [1, 1, 2]), ('Q', [1, 1])] := by
  decide

end AddressLines
