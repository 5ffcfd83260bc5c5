import AddressLines.Proofs.Grammar.Parts
import AddressLines.Proofs.Token.Shape

/-!
# Stray tokens

A token that opens no statement and has no part in one may stand among the statements of a block. Reading skips such
tokens one by one, with one fault for each, and reads the statements as if the strays were not there.

Strays are put where statements begin and end: before, between and behind the statements of a block, at any depth
(`Block.Littered`). Recovery is local because every statement leaves the reader right behind itself: a stray is neither
the `else` that a conditional looks for nor a terminator, it does not close a block, and the value of an assignment has
ended before it.
-/

namespace AddressLines

/-! ## What a stray looks like -/

namespace Token

/-- The text is what the kind takes at some place of some source text. -/
def IsLexeme (t : Token) : Prop :=
  ∃ (before : Option Char) (cs : List Char),
    lexeme? before cs = some t.kind ∧ t.text.toList = cs.take (t.kind.length before cs)

/-- A token that does not belong into a block, with a text that is scanned as its kind. -/
structure IsStray (t : Token) : Prop where
  isLexeme : t.IsLexeme
  kind : t.kind = .invalid ∨ t.kind = .literal ∨ t.kind = .operator ∨
    (t.kind = .delimiter ∧ t.text ≠ ";" ∧ t.text ≠ closeBrace) ∨
    (t.kind = .keyword ∧ t.text ∈ ["package", "func", "for"])

/-- Texts that close a block or go on with a conditional. -/
def blockWords : List String :=
  [closeBrace, "case", "default", "else"]

variable {before : Option Char} {cs : List Char} {x : String}

/-- Where an invalid character stands, no delimiter does. -/
theorem delimiterLength_of_invalid (h : lexeme? before cs = some .invalid) : singleLength isDelimiter cs = 0 := by
  rcases Nat.eq_zero_or_pos (Kind.length before cs .delimiter) with hzero | hpos
  · exact hzero
  · unfold lexeme? kinds at h
    grind

/-- A class of single characters takes the first one. -/
theorem eq_of_singleLength {p : Char → Bool} (hpos : 0 < singleLength p cs)
    (hx : x.toList = cs.take (singleLength p cs)) : ∃ c ds, cs = c :: ds ∧ p c = true ∧ x = String.ofList [c] := by
  cases cs with
  | nil => simp [singleLength] at hpos
  | cons c cs =>
    by_cases hc : p c = true
    · refine ⟨c, cs, rfl, hc, ?_⟩
      rw [singleLength, if_pos hc, List.take_succ_cons, List.take_zero] at hx
      rw [← hx, String.ofList_toList]
    · simp [singleLength, hc] at hpos

/-- A literal is a truth value, or it starts with a quote or a digit. -/
theorem head_of_literalLength (hpos : 0 < literalLength before cs) (hx : x.toList = cs.take (literalLength before cs)) :
    x ∈ booleans ∨ ∃ c, x.toList.head? = some c ∧ (c = '"' ∨ c = '\'' ∨ c.isDigit = true) := by
  obtain ⟨n, hn⟩ := Nat.exists_eq_succ_of_ne_zero (Nat.ne_of_gt hpos)
  revert hpos hx hn
  fun_cases literalLength before cs with
  | case1 =>
    intro hpos
    exact absurd hpos (Nat.lt_irrefl 0)
  | case2 cs =>
    intro _ hx hn
    exact .inr ⟨'"', by rw [hx, hn]; rfl, .inl rfl⟩
  | case3 cs =>
    intro _ hx hn
    exact .inr ⟨'\'', by rw [hx, hn]; rfl, .inr (.inl rfl)⟩
  | case4 c cs _ _ hdigit =>
    intro _ hx hn
    exact .inr ⟨c, by rw [hx, hn]; rfl, .inr (.inr hdigit)⟩
  | case5 c cs _ _ _ =>
    intro hpos hx _
    rw [wordLength] at hpos hx
    split_ifs at hpos hx with hword
    · have hrun : (c :: cs).take (Text.wordRun (c :: cs)).length = Text.wordRun (c :: cs) :=
        (List.prefix_iff_eq_take.mp (List.takeWhile_prefix _)).symm
      have hmem : Text.noWord before = true ∧ String.ofList (Text.wordRun (c :: cs)) ∈ booleans := by simpa using hword
      rw [← hrun, ← hx, String.ofList_toList] at hmem
      exact .inl hmem.2
    · exact absurd hpos (Nat.lt_irrefl 0)

theorem notMem_blockWords_of_literal {t : Token} (h : t.IsLexeme) (hkind : t.kind = .literal) :
    t.text ∉ blockWords := by
  obtain ⟨before, cs, hlexeme, htext⟩ := h
  have hpos := length_pos_of_lexeme? hlexeme
  rw [hkind] at hpos htext
  rcases head_of_literalLength hpos htext with hboolean | ⟨c, hhead, hc⟩
  · have hbooleans : ∀ w ∈ booleans, w ∉ blockWords := by decide
    exact hbooleans _ hboolean
  · intro hmem
    have hheads : ∀ w ∈ blockWords, w.toList.head? ∈ [some '\x7d', some 'c', some 'd', some 'e'] := by decide
    have hfirst := hheads _ hmem
    rw [hhead] at hfirst
    simp only [List.mem_cons, Option.some.injEq, List.not_mem_nil, or_false] at hfirst
    rcases hfirst with rfl | rfl | rfl | rfl <;> simp at hc

theorem notMem_blockWords_of_single {c : Char} (hc : c ≠ '\x7d') : String.ofList [c] ∉ blockWords := by
  intro hmem
  have hwords : ∀ w ∈ blockWords, w.toList = ['\x7d'] ∨ 1 < w.toList.length := by decide
  have hword := hwords _ hmem
  rw [String.toList_ofList] at hword
  rcases hword with hbrace | hlong
  · exact hc (List.cons.inj hbrace).1
  · simp at hlong

namespace IsStray

variable {t : Token}

theorem notMem_blockWords (h : t.IsStray) : t.text ∉ blockWords := by
  obtain ⟨before, cs, hlexeme, htext⟩ := h.isLexeme
  have hpos := length_pos_of_lexeme? hlexeme
  rcases h.kind with hkind | hkind | hkind | ⟨hkind, -, hbrace⟩ | ⟨-, hmem⟩
  · rw [hkind] at hlexeme hpos htext
    obtain ⟨c, ds, rfl, -, hone⟩ := eq_of_singleLength hpos htext
    have hdelimiter : isDelimiter c = false := by simpa [singleLength] using delimiterLength_of_invalid hlexeme
    rw [hone]
    apply notMem_blockWords_of_single
    rintro rfl
    exact absurd hdelimiter (by decide)
  · exact notMem_blockWords_of_literal h.isLexeme hkind
  · rw [hkind] at hpos htext
    have hoperators : ∀ op ∈ operators, op ∉ blockWords := by decide
    exact hoperators _ (mem_operators_of_operatorLength hpos htext)
  · rw [hkind] at hpos htext
    obtain ⟨c, ds, rfl, -, hone⟩ := eq_of_singleLength hpos htext
    rw [hone] at hbrace ⊢
    apply notMem_blockWords_of_single
    rintro rfl
    exact hbrace rfl
  · have hkeywords : ∀ w ∈ ["package", "func", "for"], w ∉ blockWords := by decide
    exact hkeywords _ hmem

theorem closesBlock (h : t.IsStray) : t.closesBlock = false := by
  have hmem := h.notMem_blockWords
  simp only [blockWords, List.mem_cons, List.not_mem_nil, or_false, not_or] at hmem
  simp [Token.closesBlock, hmem.1, hmem.2.1, hmem.2.2.1]

theorem text_ne_else (h : t.IsStray) : t.text ≠ "else" := by
  have hmem := h.notMem_blockWords
  simp only [blockWords, List.mem_cons, List.not_mem_nil, or_false, not_or] at hmem
  exact hmem.2.2.2

theorem isTerminator (h : t.IsStray) : t.isTerminator = false := by
  rcases h.kind with hkind | hkind | hkind | ⟨hkind, hsemicolon, -⟩ | ⟨hkind, -⟩
  · exact isTerminator_of_kind (by simp [hkind]) (by simp [hkind])
  · exact isTerminator_of_kind (by simp [hkind]) (by simp [hkind])
  · exact isTerminator_of_kind (by simp [hkind]) (by simp [hkind])
  · exact isTerminator_eq_false (by simp [Token.isLineEnd, hkind]) hsemicolon
  · exact isTerminator_of_kind (by simp [hkind]) (by simp [hkind])

theorem isLineEnd (h : t.IsStray) : t.isLineEnd = false :=
  isLineEnd_of_not_isTerminator h.isTerminator

theorem form? (h : t.IsStray) : Grammar.standard.form? t = none := by
  unfold Grammar.form?
  rcases h.kind with hkind | hkind | hkind | ⟨hkind, -⟩ | ⟨hkind, hmem⟩ <;> rw [hkind]
  have hopenings : ∀ w ∈ ["package", "func", "for"], Grammar.standardOpening w = none := by decide
  simp only [Grammar.standard, hopenings _ hmem, Option.map_none]

end IsStray

end Token

/-! ## Blocks with strays -/

/-- A run of line ends and strays; the strays are listed. -/
inductive Litter : List Token → List Token → List Token → Prop
  | nil {rest : List Token} : Litter rest rest []
  | lineEnd {t : Token} {ts rest strays : List Token} :
    t.isLineEnd = true → Litter ts rest strays → Litter (t :: ts) rest strays
  | stray {t : Token} {ts rest strays : List Token} :
    t.IsStray → Litter ts rest strays → Litter (t :: ts) rest (t :: strays)

mutual

/-- `s.Littered ts rest strays`: a way of writing `s`, with `rest` behind it and `strays` in its blocks. -/
inductive Stmt.Littered : Stmt → List Token → List Token → List Token → Prop
  | simple {s : Stmt} {ts rest : List Token} : s.isSimple = true → s.Derives ts rest → Stmt.Littered s ts rest []
  | cond {t : Token} {c : Expr} {body : Block} {ts us vs ws rest strays : List Token} :
    t.Is .keyword "if" → c.Derives ts us → Block.LitteredBraces body us vs strays → LineEnds vs ws → MayEnd ws rest →
      Stmt.Littered (.cond c body none) (t :: ts) rest strays
  | condElse {t other : Token} {c : Expr} {body alternative : Block} {ts us vs ws xs rest strays strays' : List Token} :
    t.Is .keyword "if" → c.Derives ts us → Block.LitteredBraces body us vs strays →
      LineEnds vs (other :: ws) → other.Is .keyword "else" → Block.LitteredBraces alternative ws xs strays' →
      MayEnd xs rest → Stmt.Littered (.cond c body (some alternative)) (t :: ts) rest (strays ++ strays')
  | tagless {t opening closing : Token} {arms : List (Arm Stmt)} {ts us vs ws rest strays : List Token} :
    t.Is .keyword "switch" → LineEnds ts (opening :: us) → opening.Is .delimiter openBrace →
      Arm.Littered arms us vs strays → LineEnds vs (closing :: ws) → closing.Is .delimiter closeBrace → MayEnd ws rest →
      Stmt.Littered (.switch .absent arms) (t :: ts) rest strays
  | tagged {t opening closing : Token} {e : Expr} {arms : List (Arm Stmt)}
      {ts us vs ws xs ys rest strays : List Token} :
    t.Is .keyword "switch" → LineEnds ts us → e.Derives us vs →
      LineEnds vs (opening :: ws) → opening.Is .delimiter openBrace →
      Arm.Littered arms ws xs strays → LineEnds xs (closing :: ys) → closing.Is .delimiter closeBrace → MayEnd ys rest →
      Stmt.Littered (.switch e arms) (t :: ts) rest strays

/-- Statements, with strays and line ends before each of them and behind the last one. -/
inductive Block.Littered : Block → List Token → List Token → List Token → Prop
  | nil {ts rest strays : List Token} : Litter ts rest strays → Block.Littered [] ts rest strays
  | cons {s : Stmt} {ss : Block} {ts us vs rest strays inner strays' : List Token} :
    Litter ts us strays → s.Littered us vs inner → Block.Littered ss vs rest strays' →
      Block.Littered (s :: ss) ts rest (strays ++ (inner ++ strays'))

inductive Block.LitteredBraces : Block → List Token → List Token → List Token → Prop
  | mk {opening closing : Token} {body : Block} {ts us vs rest strays : List Token} :
    LineEnds ts (opening :: us) → opening.Is .delimiter openBrace → Block.Littered body us vs strays →
      LineEnds vs (closing :: rest) → closing.Is .delimiter closeBrace → Block.LitteredBraces body ts rest strays

inductive Arm.Littered : List (Arm Stmt) → List Token → List Token → List Token → Prop
  | nil {rest : List Token} : Arm.Littered [] rest rest []
  | guarded {t colon : Token} {guard : Expr} {body : Block} {arms : List (Arm Stmt)}
      {ts us vs ws xs rest strays strays' : List Token} :
    LineEnds ts (t :: us) → t.Is .keyword "case" → guard.Derives us vs →
      LineEnds vs (colon :: ws) → colon.Is .delimiter ":" → Block.Littered body ws xs strays →
      Arm.Littered arms xs rest strays' → Arm.Littered (⟨guard, body⟩ :: arms) ts rest (strays ++ strays')
  | default {t colon : Token} {body : Block} {arms : List (Arm Stmt)} {ts us vs ws rest strays strays' : List Token} :
    LineEnds ts (t :: us) → t.Is .keyword "default" →
      LineEnds us (colon :: vs) → colon.Is .delimiter ":" → Block.Littered body vs ws strays →
      Arm.Littered arms ws rest strays' → Arm.Littered (⟨.absent, body⟩ :: arms) ts rest (strays ++ strays')

end

/-! ## What stands around a statement -/

theorem Litter.follows {ts us strays : List Token} (h : Litter ts us strays) (hfollow : Follows us) : Follows ts := by
  induction h with
  | nil => exact hfollow
  | lineEnd ht _ ih =>
    unfold Follows
    rw [skipLineEnds_cons_lineEnd _ ht]
    exact ih hfollow
  | stray ht _ _ =>
    unfold Follows
    rw [skipLineEnds_cons _ ht.isLineEnd]
    rintro _ ⟨⟩
    exact ⟨ht.text_ne_else, ht.isTerminator⟩

theorem Stmt.Littered.opens {s : Stmt} {ts rest strays : List Token} (h : s.Littered ts rest strays) :
    ∃ t us form, ts = t :: us ∧ t.Opens form := by
  cases h with
  | simple hsimple h => exact h.opens hsimple
  | cond ht _ _ _ _ => exact ⟨_, _, _, rfl, Token.opens_of_keyword ht rfl⟩
  | condElse ht _ _ _ _ _ _ => exact ⟨_, _, _, rfl, Token.opens_of_keyword ht rfl⟩
  | tagless ht _ _ _ _ _ _ => exact ⟨_, _, _, rfl, Token.opens_of_keyword ht rfl⟩
  | tagged ht _ _ _ _ _ _ _ _ => exact ⟨_, _, _, rfl, Token.opens_of_keyword ht rfl⟩

theorem Block.Littered.follows {b : Block} {ts rest strays : List Token} (h : Block.Littered b ts rest strays)
    (hclose : Closes rest) : Follows ts := by
  cases h with
  | nil hlitter => exact hlitter.follows hclose.follows
  | cons hlitter hs _ =>
    apply hlitter.follows
    obtain ⟨t, us, form, rfl, hterm, -, helse, -⟩ := hs.opens
    unfold Follows
    rw [skipLineEnds_cons us (Token.isLineEnd_of_not_isTerminator hterm)]
    rintro _ ⟨⟩
    exact ⟨helse, hterm⟩

theorem Block.LitteredBraces.head_kind {b : Block} {ts rest strays : List Token}
    (h : Block.LitteredBraces b ts rest strays) : ∀ t ∈ ts.head?, t.kind ≠ .operator := by
  obtain ⟨hends, ht, -, -, -⟩ := h
  exact hends.head_kind ht

theorem Arm.Littered.closes {arms : List (Arm Stmt)} {ts rest strays : List Token}
    (h : Arm.Littered arms ts rest strays) (hclose : Closes rest) : Closes ts := by
  cases h with
  | nil => exact hclose
  | guarded hends ht _ _ _ _ _ =>
    exact closes_of_next (hends.next ht (by decide)) (by simp [Token.closesBlock, ht.2])
  | default hends ht _ _ _ _ =>
    exact closes_of_next (hends.next ht (by decide)) (by simp [Token.closesBlock, ht.2])

/-! ## Reading -/

/-- What is reported for a stray. -/
def Token.strayFault (t : Token) : Fault :=
  ⟨.unexpected "Statement" (Fault.quote t.text), some t.start⟩

namespace Reader

open Parsed

variable {r : Reader}

/-- Strays before the rest of a block are reported, each where it stands, and nothing else is changed by them. -/
theorem block_litter_reports (hr : r.grammar = .standard) {ts us strays rest : List Token} {b : Block} {fs : List Fault}
    (h : Litter ts us strays) (hblock : (r.block us).Reports b rest fs) :
    (r.block ts).Reports b rest (strays.map Token.strayFault ++ fs) := by
  induction h with
  | nil => exact hblock
  | lineEnd ht _ ih =>
    rw [block, if_pos ht]
    exact (ih hblock).widen _
  | stray ht _ ih =>
    have hform := ht.form?
    rw [← hr] at hform
    rw [block, if_neg (by simp [ht.isLineEnd]), if_neg (by simp [ht.closesBlock])]
    simp only [hform]
    obtain ⟨hvalue, hrest, hfaults⟩ := ih hblock
    refine ⟨hvalue, hrest, ?_⟩
    rw [faults_widen, faults_report, hfaults]
    rfl

mutual

/-- A statement is read up to line ends behind it, and what is reported are the strays in its blocks. -/
theorem statement_litter_reports (hr : r.grammar = .standard) : ∀ {s : Stmt} {ts rest strays : List Token},
    s.Littered ts rest strays → Follows rest → ∃ t us form vs, ts = t :: us ∧ t.Opens form ∧
      (r.statementOf form us).Reports s vs (strays.map Token.strayFault) ∧ skipLineEnds vs = skipLineEnds rest
  | _, _, _, _, .simple hsimple h, hfollow => simple_gives hr h hsimple hfollow
  | _, _, _, _, .cond ht hc hbody hends hend, hfollow => by
    obtain ⟨helse, vs, hgives, hvs⟩ := skipTerminator_skipLineEnds_gives hend hfollow
    refine ⟨_, _, _, vs, rfl, Token.opens_of_keyword ht rfl, ?_, hvs⟩
    rw [← hends.skip] at helse hgives
    rw [statementOf, ← List.append_nil (List.map _ _)]
    exact conditional_reports hr hc hbody.head_kind (braces_litter_reports hr hbody) (alternative_none_gives helse)
      hgives
  | _, _, _, _, .condElse ht hc hbody hends hother hbody' hend, hfollow => by
    obtain ⟨vs, hgives, hvs⟩ := skipTerminator_gives hend hfollow
    refine ⟨_, _, _, vs, rfl, Token.opens_of_keyword ht rfl, ?_, hvs⟩
    have halternative :=
      alternative_some_reports (hends.next hother (by decide)) hother.2 (braces_litter_reports hr hbody')
    rw [statementOf, List.map_append]
    exact conditional_reports hr hc hbody.head_kind (braces_litter_reports hr hbody) halternative hgives
  | _, _, _, _, .tagless ht hends hopening harms hends' hclosing hend, hfollow => by
    obtain ⟨vs, hgives, hvs⟩ := skipTerminator_gives hend hfollow
    refine ⟨_, _, _, vs, rfl, Token.opens_of_keyword ht rfl, ?_, hvs⟩
    have hnext := hends'.next hclosing (by decide)
    rw [statementOf]
    exact selection_tagless_reports (hends.next hopening (by decide)) hopening.2
      (arms_litter_reports hr harms hnext hclosing.2) (by rw [skipLineEnds_skipLineEnds, hnext]) hclosing.2 hgives
  | _, _, _, _, .tagged ht hends he hends' hopening harms hends'' hclosing hend, hfollow => by
    obtain ⟨vs, hgives, hvs⟩ := skipTerminator_gives hend hfollow
    refine ⟨_, _, _, vs, rfl, Token.opens_of_keyword ht rfl, ?_, hvs⟩
    have hnext := hends''.next hclosing (by decide)
    rw [statementOf]
    exact selection_tagged_reports hr hends he (hends'.head_kind hopening) (hends'.next hopening (by decide)) hopening.2
      (arms_litter_reports hr harms hnext hclosing.2) (by rw [skipLineEnds_skipLineEnds, hnext]) hclosing.2 hgives

theorem block_littered_reports (hr : r.grammar = .standard) : ∀ {b : Block} {ts rest strays : List Token},
    Block.Littered b ts rest strays → Closes rest →
      (r.block ts).Reports b (skipLineEnds rest) (strays.map Token.strayFault)
  | _, _, _, _, .nil hlitter, hclose => by
    rw [← List.append_nil (List.map _ _)]
    exact block_litter_reports hr hlitter (block_nil_gives hclose)
  | _, _, _, _, .cons hlitter hs hss, hclose => by
    obtain ⟨t, us, form, vs, rfl, hopens, hstmt, hvs⟩ := statement_litter_reports hr hs (hss.follows hclose)
    have hnext : skipLineEnds (t :: us) = t :: us :=
      skipLineEnds_cons us (Token.isLineEnd_of_not_isTerminator hopens.1)
    rw [List.map_append, List.map_append]
    apply block_litter_reports hr hlitter
    exact block_cons_reports hr hnext hopens hstmt (block_congr hvs (block_littered_reports hr hss hclose))

theorem braces_litter_reports (hr : r.grammar = .standard) : ∀ {b : Block} {ts rest strays : List Token},
    Block.LitteredBraces b ts rest strays → (r.braces ts).Reports b rest (strays.map Token.strayFault)
  | _, _, _, _, .mk hends hopening hbody hends' hclosing => by
    have hnext := hends'.next hclosing (by decide)
    have hclose : Closes _ := closes_of_next hnext (by simp [Token.closesBlock, hclosing.2])
    exact braces_reports (hends.next hopening (by decide)) hopening.2 (block_littered_reports hr hbody hclose)
      (by rw [skipLineEnds_skipLineEnds, hnext]) hclosing.2

theorem arms_litter_reports (hr : r.grammar = .standard) :
    ∀ {arms : List (Arm Stmt)} {ts rest strays us : List Token} {closing : Token}, Arm.Littered arms ts rest strays →
      skipLineEnds rest = closing :: us → closing.text = closeBrace →
      (r.arms ts).Reports arms (skipLineEnds rest) (strays.map Token.strayFault)
  | _, _, _, _, _, _, .nil, hclosing, htext => arms_nil_gives hclosing htext
  | _, _, _, _, _, _, .guarded hends ht hg hends' hcolon hbody harms, hclosing, htext => by
    have hclose := harms.closes (closes_of_next hclosing (by simp [Token.closesBlock, htext]))
    have hguard := expression_derives hr hg (hends'.head_kind hcolon)
    have harm := armOf_reports true hguard (hends'.next hcolon (by decide)) hcolon.2
      (block_littered_reports hr hbody hclose)
    rw [List.map_append]
    refine arms_cons_reports (hends.next ht (by decide)) (.inl ht.2) (by rw [ht.2]; exact harm) ?_
    exact arms_congr (skipLineEnds_skipLineEnds _) (arms_litter_reports hr harms hclosing htext)
  | _, _, _, _, _, _, @Arm.Littered.default _ _ _ _ _ us _ _ _ _ _ hends ht hends' hcolon hbody harms, hclosing,
      htext => by
    have hclose := harms.closes (closes_of_next hclosing (by simp [Token.closesBlock, htext]))
    have hguard : (Parsed.pure .absent : Parsed Expr us).Gives .absent us := .pure _
    have harm := armOf_reports false hguard (hends'.next hcolon (by decide)) hcolon.2
      (block_littered_reports hr hbody hclose)
    rw [List.map_append]
    refine arms_cons_reports (hends.next ht (by decide)) (.inr ht.2) (by rw [ht.2]; exact harm) ?_
    exact arms_congr (skipLineEnds_skipLineEnds _) (arms_litter_reports hr harms hclosing htext)

end

end Reader

/-- A text on one line is quoted as it is. -/
theorem Fault.quote_eq_self {text : String} (hfeed : '\n' ∉ text.toList) (hreturn : '\r' ∉ text.toList) :
    Fault.quote text = text := by
  have hchars : ∀ c ∈ text.toList,
      (if c = '\n' ∨ c = '\r' then Fault.endOfFile else c.toString) = String.singleton c := by
    intro c hc
    have hne : ¬ (c = '\n' ∨ c = '\r') := by
      rintro (rfl | rfl)
      · exact hfeed hc
      · exact hreturn hc
    rw [if_neg hne]
    rfl
  rw [quote, List.map_congr_left hchars]
  apply String.toList_inj.mp
  simp [String.toList_join, List.flatMap_map]

/-- A block with strays before, between and behind its statements, at any depth, is read as the block without them, up
to what closes it. There is one fault for each stray, in the order of the strays, and no other one: a statement was
expected and the stray was found, at the start of the stray. -/
theorem Reader.block_skips_strays {r : Reader} (hr : r.grammar = .standard) {b : Block} {ts rest strays : List Token}
    (h : Block.Littered b ts rest strays) (hclose : Closes rest) :
    (r.block ts).value = b ∧ (r.block ts).rest = skipLineEnds rest ∧
      (r.block ts).faults = strays.map Token.strayFault ∧
      ∀ t ∈ strays, t.strayFault.position = some t.start ∧
        t.strayFault.message = "Statement expected, got '" ++ Fault.quote t.text ++ "'" ∧
        ('\n' ∉ t.text.toList → '\r' ∉ t.text.toList → Fault.quote t.text = t.text) := by
  obtain ⟨hvalue, hrest, hfaults⟩ := block_littered_reports hr h hclose
  refine ⟨hvalue, hrest, hfaults, fun t _ => ⟨rfl, ?_, Fault.quote_eq_self⟩⟩
  have hexpected : "Statement" ++ " expected, got '" = "Statement expected, got '" := by simp
  exact congrArg (· ++ Fault.quote t.text ++ "'") hexpected

/-- Strays before and between statements, alone in a block, under a default arm, and at the end. -/
def litteredTokens : List Token :=
  [.bare .invalid "@", .bare .identifier "x", .bare .operator ":=", .bare .literal "1", .bare .delimiter ";",
    .bare .operator "+", .bare .keyword "if", .bare .identifier "x", .bare .delimiter openBrace, .bare .delimiter ")",
    .bare .delimiter closeBrace, .bare .keyword "func", .bare .lineEnd "\n", .bare .keyword "switch",
    .bare .delimiter openBrace, .bare .keyword "default", .bare .delimiter ":", .bare .literal "\"a\"",
    .bare .keyword "break", .bare .delimiter closeBrace, .bare .delimiter openBrace]

def litteredBlock : Block :=
  [.assign "x" true (.literal (.integer 1)), .cond (.name "x") [] none, .switch .absent [⟨.absent, [.branch .breaks]⟩]]

def litteredStrays : List Token :=
  [.bare .invalid "@", .bare .operator "+", .bare .delimiter ")", .bare .keyword "func", .bare .literal "\"a\"",
    .bare .delimiter openBrace]

theorem litteredStrays_isStray : ∀ t ∈ litteredStrays, t.IsStray := by
  have hscanned : ∀ t ∈ litteredStrays, Token.lexeme? none t.text.toList = some t.kind ∧
      t.text.toList = t.text.toList.take (t.kind.length none t.text.toList) := by decide
  have hkind : ∀ t ∈ litteredStrays, t.kind = .invalid ∨ t.kind = .literal ∨ t.kind = .operator ∨
      (t.kind = .delimiter ∧ t.text ≠ ";" ∧ t.text ≠ closeBrace) ∨
      (t.kind = .keyword ∧ t.text ∈ ["package", "func", "for"]) := by decide
  exact fun t ht => ⟨⟨none, t.text.toList, hscanned t ht⟩, hkind t ht⟩

theorem litteredTokens_littered : Block.Littered litteredBlock litteredTokens [] litteredStrays := by
  obtain ⟨hat, hplus, hbracket, hfunc, hquoted, hbrace, -⟩ := by
    simpa only [litteredStrays, List.forall_mem_cons] using litteredStrays_isStray
  have hassign : Stmt.Littered (.assign "x" true (.literal (.integer 1))) (litteredTokens.drop 1)
      (litteredTokens.drop 5) [] :=
    .simple rfl (.define ⟨⟨rfl, rfl⟩, rfl⟩ (.refl _) ⟨rfl, rfl⟩ ⟨[_], rfl, .literal rfl rfl, rfl, by decide⟩
      (.terminator rfl))
  have hcond : Stmt.Littered (.cond (.name "x") [] none) (litteredTokens.drop 6) (litteredTokens.drop 11)
      [.bare .delimiter ")"] :=
    .cond ⟨rfl, rfl⟩ ⟨[_], rfl, .name ⟨rfl, rfl⟩, rfl, by decide⟩
      (.mk (.refl _) ⟨rfl, rfl⟩ (.nil (.stray hbracket .nil)) (.refl _) ⟨rfl, rfl⟩) (.refl _) .nothing
  have hbreak : Stmt.Littered (.branch .breaks) (litteredTokens.drop 18) (litteredTokens.drop 19) [] :=
    .simple rfl (.branch ⟨rfl, rfl⟩ .nothing)
  have hswitch : Stmt.Littered (.switch .absent [⟨.absent, [.branch .breaks]⟩]) (litteredTokens.drop 13)
      (litteredTokens.drop 20) [.bare .literal "\"a\""] :=
    .tagless ⟨rfl, rfl⟩ (.refl _) ⟨rfl, rfl⟩
      (.default (.refl _) ⟨rfl, rfl⟩ (.refl _) ⟨rfl, rfl⟩ (.cons (.stray hquoted .nil) hbreak (.nil .nil)) .nil)
      (.refl _) ⟨rfl, rfl⟩ .nothing
  exact .cons (.stray hat .nil) hassign (.cons (.stray hplus .nil) hcond
    (.cons (.stray hfunc (.lineEnd rfl .nil)) hswitch (.nil (.stray hbrace .nil))))

theorem Reader.block_skips_strays_nested :
    Block.Littered litteredBlock litteredTokens [] litteredStrays ∧
      ((standard litteredTokens).block litteredTokens).value = litteredBlock ∧
      ((standard litteredTokens).block litteredTokens).faults = litteredStrays.map Token.strayFault :=
  have hread := block_skips_strays (r := standard litteredTokens) rfl litteredTokens_littered nofun
  ⟨litteredTokens_littered, hread.1, hread.2.2.1⟩

end AddressLines
