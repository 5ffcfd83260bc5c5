import AddressLines.Proofs.Grammar.Parts

/-!
# What reading depends on

Reading sees the kinds and the texts of tokens, and of a run of line ends it sees that there is one, not how long it
is. Two lists of tokens that agree so far (`Relaid`) are read alike: the same program comes out, and the same
faults are reported for the same causes, at other positions perhaps.

The two readings go side by side, whatever is wrong with the tokens. Most readers leave lists that are relaid again. A
terminator is different: it takes one line end of a run, and the run may go on in one list and not in the other. What
it leaves is relaid behind line ends only (`Relaid.Behind`), and each reader that comes next passes over line ends
before it looks at anything.
-/

namespace AddressLines

/-- The tokens have the same kind and the same text, wherever they stand. -/
def Token.Agrees (t u : Token) : Prop :=
  t.kind = u.kind ∧ t.text = u.text

/-- The lists agree token by token, but for the lengths of their runs of line ends. Of the texts of line ends only
the first one of a run can be seen, in a message that quotes it. -/
inductive Relaid : List Token → List Token → Prop
  | nil : Relaid [] []
  | token {t u : Token} {ts us : List Token} :
    t.isLineEnd = false → t.Agrees u → Relaid ts us → Relaid (t :: ts) (u :: us)
  | ends {t u : Token} {ts us : List Token} :
    t.isLineEnd = true → u.isLineEnd = true → Fault.quote t.text = Fault.quote u.text →
      Relaid (skipLineEnds ts) (skipLineEnds us) → Relaid (t :: ts) (u :: us)

namespace Relaid

/-- What stands behind line ends is relaid. -/
def Behind (ts us : List Token) : Prop :=
  Relaid (skipLineEnds ts) (skipLineEnds us)

end Relaid

theorem Token.Agrees.isLineEnd_eq {t u : Token} (h : t.Agrees u) : t.isLineEnd = u.isLineEnd := by
  simp only [Token.isLineEnd, h.1]

theorem Token.Agrees.isTerminator_eq {t u : Token} (h : t.Agrees u) : t.isTerminator = u.isTerminator := by
  simp only [Token.isTerminator, h.isLineEnd_eq, h.1, h.2]

namespace Relaid

variable {ts us : List Token}

theorem behind (h : Relaid ts us) : Behind ts us := by
  cases h with
  | nil => exact .nil
  | token hend htoken h =>
    rw [Behind, skipLineEnds_cons _ hend, skipLineEnds_cons _ (htoken.isLineEnd_eq ▸ hend)]
    exact .token hend htoken h
  | ends ht hu _ h =>
    rw [Behind, skipLineEnds_cons_lineEnd _ ht, skipLineEnds_cons_lineEnd _ hu]
    exact h

/-- Behind line ends both lists are at their end, or they go on with tokens that agree. -/
theorem Behind.next (h : Behind ts us) :
    (skipLineEnds ts = [] ∧ skipLineEnds us = []) ∨
      ∃ t u ts' us', skipLineEnds ts = t :: ts' ∧ skipLineEnds us = u :: us' ∧ t.isLineEnd = false ∧
        u.isLineEnd = false ∧ t.Agrees u ∧ Relaid ts' us' := by
  cases hts : skipLineEnds ts with
  | nil =>
    rw [Behind, hts] at h
    cases hus : skipLineEnds us with
    | nil => exact .inl ⟨rfl, rfl⟩
    | cons u us' => rw [hus] at h; cases h
  | cons t ts' =>
    have hend := isLineEnd_of_skipLineEnds hts
    rw [Behind, hts] at h
    cases hus : skipLineEnds us with
    | nil => rw [hus] at h; cases h
    | cons u us' =>
      rw [hus] at h
      cases h with
      | token _ htoken h =>
        exact .inr ⟨t, u, ts', us', rfl, rfl, hend, htoken.isLineEnd_eq ▸ hend, htoken, h⟩
      | ends ht _ _ _ => simp [hend] at ht

theorem foundText_eq (h : Relaid ts us) : foundText ts = foundText us := by
  cases h with
  | nil => rfl
  | token _ htoken _ => simp only [foundText, htoken.2]
  | ends _ _ hquote _ => exact hquote

theorem Behind.nextIs_eq (h : Behind ts us) (text : String) : nextIs text ts = nextIs text us := by
  rcases h.next with ⟨hts, hus⟩ | ⟨t, u, ts', us', hts, hus, -, -, htoken, -⟩
  · simp [nextIs, hts, hus]
  · simp [nextIs, hts, hus, htoken.2]

theorem Behind.tail (h : Behind ts us) : Relaid (skipLineEnds ts).tail (skipLineEnds us).tail := by
  rcases h.next with ⟨hts, hus⟩ | ⟨t, u, ts', us', hts, hus, -, -, -, h⟩
  · rw [hts, hus]
    exact .nil
  · rw [hts, hus]
    exact h

end Relaid

/-! ## Outcomes side by side -/

/-- Both parts succeed with the same value, or both fail for the same cause. -/
inductive SameAnswer {α : Type} : Except Fault α → Except Fault α → Prop
  | ok (a : α) : SameAnswer (.ok a) (.ok a)
  | error {f g : Fault} : f.cause = g.cause → SameAnswer (.error f) (.error g)

theorem SameAnswer.map {α β : Type} {a b : Except Fault α} (h : SameAnswer a b) (f : α → β) :
    SameAnswer (a.map f) (b.map f) := by
  cases h with
  | ok a => exact .ok (f a)
  | error h => exact .error h

namespace Parsed

variable {α β : Type} {V : α → α → Prop} {L L' : List Token → List Token → Prop} {ts us : List Token}

/-- The values of two outcomes and the lists they leave are related, and the faults have the same causes. -/
structure Matches (V : α → α → Prop) (L : List Token → List Token → Prop) (p : Parsed α ts) (q : Parsed α us) :
    Prop where
  value : V p.value q.value
  causes : p.faults.map Fault.cause = q.faults.map Fault.cause
  rest : L p.rest q.rest

theorem Matches.pure {a b : α} (hvalue : V a b) (hrest : L ts us) :
    Matches V L (Parsed.pure a : Parsed α ts) (Parsed.pure b : Parsed α us) :=
  ⟨hvalue, rfl, hrest⟩

theorem Matches.map {p : Parsed α ts} {q : Parsed α us} (h : Matches Eq L p q) (f : α → β) :
    Matches Eq L (p.map f) (q.map f) :=
  ⟨congrArg f h.value, h.causes, h.rest⟩

theorem Matches.mapAnswer {p : Parsed (Except Fault α) ts} {q : Parsed (Except Fault α) us}
    (h : Matches SameAnswer L p q) (f : α → β) :
    Matches SameAnswer L (p.map fun a => a.map f) (q.map fun a => a.map f) :=
  ⟨h.value.map f, h.causes, h.rest⟩

theorem Matches.widen {ts' us' : List Token} {p : Parsed α ts} {q : Parsed α us} (hts : ts <:+ ts') (hus : us <:+ us')
    (h : Matches V L p q) : Matches V L (p.widen hts) (q.widen hus) :=
  ⟨h.value, h.causes, h.rest⟩

theorem Matches.report {p : Parsed α ts} {q : Parsed α us} {f g : Fault} (hcause : f.cause = g.cause)
    (h : Matches V L p q) : Matches V L (p.report f) (q.report g) :=
  ⟨h.value, by rw [faults_report, faults_report, List.map_cons, List.map_cons, hcause, h.causes], h.rest⟩

theorem Matches.recover {p : Parsed (Except Fault α) ts} {q : Parsed (Except Fault α) us} (fallback : α)
    (h : Matches SameAnswer L p q) : Matches Eq L (p.recover fallback) (q.recover fallback) := by
  obtain ⟨a, _, _, _⟩ := p
  obtain ⟨b, _, _, _⟩ := q
  obtain ⟨hvalue, hcauses, hrest⟩ := h
  cases hvalue with
  | ok => exact ⟨rfl, hcauses, hrest⟩
  | error hcause =>
    exact ⟨rfl, by simp only [Parsed.recover, List.map_append, hcauses, List.map_cons, List.map_nil, hcause], hrest⟩

theorem Matches.andThen {p : Parsed α ts} {q : Parsed α us}
    {f : α → (vs : List Token) → vs.length ≤ ts.length → Parsed β vs}
    {g : α → (vs : List Token) → vs.length ≤ us.length → Parsed β vs} (h : Matches Eq L p q)
    (hf : ∀ a vs ws hvs hws, L vs ws → Matches Eq L' (f a vs hvs) (g a ws hws)) :
    Matches Eq L' (p.andThen f) (q.andThen g) := by
  have hnext := hf p.value p.rest q.rest p.suffix.length_le q.suffix.length_le h.rest
  have hvalue := h.value
  have hcauses := h.causes
  obtain ⟨a, _, _, _⟩ := p
  obtain ⟨b, _, _, _⟩ := q
  obtain rfl : a = b := hvalue
  exact ⟨hnext.value, by rw [faults_andThen, faults_andThen, List.map_append, List.map_append, hcauses, hnext.causes],
    hnext.rest⟩

theorem widen_congr (f : (ts : List Token) → Parsed α ts) {us vs : List Token} (h : us = vs) (hus : us <:+ ts)
    (hvs : vs <:+ ts) : (f us).widen hus = (f vs).widen hvs := by
  subst h
  rfl

/-- A reader that passes over line ends reads what is behind them. -/
theorem eq_widen_skip {f : (ts : List Token) → Parsed α ts}
    (hf : ∀ (t : Token) (us : List Token), t.isLineEnd = true → f (t :: us) = (f us).widen (List.suffix_cons t us))
    (ts : List Token) : f ts = (f (skipLineEnds ts)).widen (skipLineEnds_suffix ts) := by
  induction ts with
  | nil => rfl
  | cons t us ih =>
    cases hend : t.isLineEnd with
    | false => exact widen_congr f (skipLineEnds_cons us hend).symm List.suffix_rfl _
    | true =>
      rw [hf t us hend, ih]
      exact widen_congr f (skipLineEnds_cons_lineEnd us hend).symm
        ((skipLineEnds_suffix us).trans (List.suffix_cons t us)) _

end Parsed

/-! ## Single tokens -/

namespace Reader

open Parsed Relaid

variable {r s : Reader} {ts us : List Token}

theorem cause_unexpected (h : Relaid ts us) (expected : String) :
    (r.unexpected expected ts).cause = (s.unexpected expected us).cause := by
  simp only [unexpected, h.foundText_eq]

theorem expect_matches (h : Behind ts us) (text : String) :
    Matches SameAnswer Relaid ((r.expect text ts).map fun e => e.map fun _ => ())
      ((s.expect text us).map fun e => e.map fun _ => ()) := by
  refine ⟨?_, rfl, h.tail⟩
  simp only [expect, value_map]
  rcases h.next with ⟨hts, hus⟩ | ⟨t, u, ts', us', hts, hus, hend, -, htoken, hrest⟩
  · rw [hts, hus]
    exact .error (cause_unexpected .nil text)
  · rw [hts, hus]
    simp only [htoken.2]
    split_ifs
    · exact .ok ()
    · exact .error (cause_unexpected (.token hend htoken hrest) text)

theorem consume_matches (h : Behind ts us) (text : String) :
    Matches Eq Relaid (r.consume text ts) (s.consume text us) :=
  (expect_matches h text).recover ()

theorem identifier_matches (h : Relaid ts us) : Matches SameAnswer Relaid (r.identifier ts) (s.identifier us) := by
  have hrest := h
  cases h with
  | nil => exact .pure (.error (cause_unexpected .nil _)) hrest
  | @token t u ts us hend htoken h =>
    simp only [identifier, htoken.1, htoken.2]
    split_ifs
    · exact ⟨.ok u.text, rfl, h⟩
    · exact .pure (.error rfl) hrest
  | ends ht hu hquote h =>
    simp only [Token.isLineEnd, beq_iff_eq] at ht hu
    simp only [identifier, ht, hu, hquote, reduceCtorEq, if_false]
    exact .pure (.error rfl) hrest

theorem terminator_matches (h : Relaid ts us) : Matches SameAnswer Behind (r.terminator ts) (s.terminator us) := by
  have hbehind := h.behind
  have hrest := h
  cases h with
  | nil => exact .pure (.ok ()) hbehind
  | token hend htoken h =>
    simp only [terminator, htoken.isTerminator_eq, htoken.2]
    split_ifs
    · exact ⟨.ok (), rfl, h.behind⟩
    · exact .pure (.ok ()) hbehind
    · exact .pure (.error (cause_unexpected hrest _)) hbehind
  | ends ht hu _ h =>
    simp only [terminator, Token.isTerminator_of_isLineEnd ht, Token.isTerminator_of_isLineEnd hu, if_true]
    exact ⟨.ok (), rfl, h⟩

end Reader

open Parsed Relaid in
theorem skipTerminator_matches {ts us : List Token} (h : Relaid ts us) :
    Matches Eq Behind (skipTerminator ts) (skipTerminator us) := by
  have hbehind := h.behind
  cases h with
  | nil => exact .pure rfl hbehind
  | token hend htoken h =>
    simp only [skipTerminator, htoken.isTerminator_eq]
    split_ifs
    · exact ⟨rfl, rfl, h.behind⟩
    · exact .pure rfl hbehind
  | ends ht hu _ h =>
    simp only [skipTerminator, Token.isTerminator_of_isLineEnd ht, Token.isTerminator_of_isLineEnd hu, if_true]
    exact ⟨rfl, rfl, h⟩

/-! ## Expressions -/

theorem Token.Agrees.binOp?_eq {t u : Token} (h : t.Agrees u) : t.binOp? = u.binOp? := by
  simp only [Token.binOp?, h.1, h.2]

theorem Token.Agrees.literal_same {t u : Token} (h : t.Agrees u) : SameAnswer t.literal u.literal := by
  cases hvalue : Literal.ofText? u.text with
  | some l =>
    rw [Token.literal_of_some hvalue, Token.literal_of_some (h.2 ▸ hvalue)]
    exact .ok l
  | none =>
    rw [Token.literal_of_none hvalue, Token.literal_of_none (h.2 ▸ hvalue), h.2]
    exact .error rfl

theorem Token.binOp?_of_isLineEnd {t : Token} (h : t.isLineEnd = true) : t.binOp? = none := by
  simp only [Token.isLineEnd, beq_iff_eq] at h
  simp [Token.binOp?, h]

namespace Reader

open Parsed Relaid

variable {r s : Reader}

theorem primary_matches {ts us : List Token} (h : Relaid ts us) :
    Matches SameAnswer Relaid (r.primary ts) (s.primary us) := by
  have hrest := h
  cases h with
  | nil => exact .pure (.error (cause_unexpected .nil _)) hrest
  | @token t u ts us hend htoken h =>
    simp only [primary, htoken.1, htoken.2]
    split_ifs
    · exact ⟨.ok _, rfl, h⟩
    · exact ⟨htoken.literal_same.map Expr.literal, rfl, h⟩
    · exact .pure (.error (cause_unexpected hrest _)) hrest
  | ends ht hu hquote h =>
    simp only [Token.isLineEnd, beq_iff_eq] at ht hu
    simp only [primary, ht, hu, reduceCtorEq, if_false]
    exact .pure (.error (cause_unexpected hrest _)) hrest

theorem operand_matches {ts us : List Token} (h : Relaid ts us) :
    Matches Eq Relaid (r.operand ts) (s.operand us) := by
  induction h with
  | nil => exact (primary_matches .nil).recover _
  | @token t u ts us hend htoken h ih =>
    simp only [operand, htoken.1, htoken.2]
    split_ifs
    · exact (ih.map _).widen _ _
    · exact (primary_matches (.token hend htoken h)).recover _
  | ends ht hu hquote h _ =>
    have hrest := Relaid.ends ht hu hquote h
    simp only [Token.isLineEnd, beq_iff_eq] at ht hu
    simp only [operand, ht, hu, reduceCtorEq, if_false]
    exact (primary_matches hrest).recover _

theorem links_matches (hg : r.grammar = s.grammar) (floor : Power) : ∀ {ts us : List Token}, Relaid ts us →
    Matches Eq Relaid (r.links floor ts) (s.links floor us)
  | _, _, .nil => by
    rw [links, links]
    exact .pure rfl .nil
  | t :: ts, u :: us, .token hend htoken h => by
    rw [links, links, htoken.binOp?_eq, hg]
    split
    · exact .pure rfl (.token hend htoken h)
    · split_ifs
      · refine .widen _ _ ((operand_matches h).andThen fun e vs ws hvs hws hrest => ?_)
        exact (links_matches hg floor hrest).map _
      · exact .pure rfl (.token hend htoken h)
  | t :: ts, u :: us, .ends ht hu hquote h => by
    rw [links, links, Token.binOp?_of_isLineEnd ht, Token.binOp?_of_isLineEnd hu]
    exact .pure rfl (.ends ht hu hquote h)
termination_by ts => ts.length
decreasing_by simp only [List.length_cons]; omega

theorem expression_matches (hg : r.grammar = s.grammar) (floor : Power) {ts us : List Token} (h : Relaid ts us) :
    Matches Eq Relaid (r.expression floor ts) (s.expression floor us) := by
  refine (operand_matches h).andThen fun first vs ws hvs hws hrest => ?_
  rw [hg]
  exact (links_matches hg floor hrest).map _

end Reader

/-! ## Statements -/

theorem Token.Agrees.form?_eq {t u : Token} (h : t.Agrees u) (g : Grammar) : g.form? t = g.form? u := by
  simp only [Grammar.form?, h.1, h.2]

theorem Token.Agrees.closesBlock_eq {t u : Token} (h : t.Agrees u) : t.closesBlock = u.closesBlock := by
  simp only [Token.closesBlock, h.2]

theorem length_lt_of_skipLineEnds {ts us : List Token} {t : Token} (h : skipLineEnds ts = t :: us) :
    us.length < ts.length := by
  have hle := (skipLineEnds_suffix ts).length_le
  rw [h, List.length_cons] at hle
  exact hle

namespace Reader

open Parsed Relaid

variable {r s : Reader}

theorem assignedValue_matches (hg : r.grammar = s.grammar) (target : String) (defines : Bool) {ts us : List Token}
    (h : Relaid ts us) : Matches Eq Behind (r.assignedValue target defines ts) (s.assignedValue target defines us) := by
  refine (expression_matches hg .lowest h).andThen fun e vs ws hvs hws hrest => ?_
  exact ((terminator_matches hrest).recover ()).map _

theorem assignmentTo_matches (hg : r.grammar = s.grammar) (target : String) (declared : Bool) {ts us : List Token}
    (h : Behind ts us) : Matches Eq Behind (r.assignmentTo target declared ts) (s.assignmentTo target declared us) := by
  simp only [assignmentTo, h.nextIs_eq]
  split_ifs
  · exact (assignedValue_matches hg target true h.tail).widen _ _
  · exact (assignedValue_matches hg target declared h.tail).widen _ _
  · exact ⟨rfl, congrArg (fun cause => [cause]) (cause_unexpected h _), Relaid.behind h⟩

theorem assignmentOf_matches (hg : r.grammar = s.grammar) (declared : Bool) {ts us : List Token} (h : Relaid ts us) :
    Matches Eq Behind (r.assignmentOf declared ts) (s.assignmentOf declared us) := by
  refine ((identifier_matches h).recover "").andThen fun target vs ws hvs hws hrest => ?_
  exact assignmentTo_matches hg target declared hrest.behind

theorem block_eq_skip (r : Reader) (ts : List Token) :
    r.block ts = (r.block (skipLineEnds ts)).widen (skipLineEnds_suffix ts) :=
  eq_widen_skip (fun t us hend => by rw [block, if_pos hend]) ts

theorem alternative_eq_skip (r : Reader) (ts : List Token) :
    r.alternative ts = (r.alternative (skipLineEnds ts)).widen (skipLineEnds_suffix ts) :=
  eq_widen_skip (fun t us hend => by rw [alternative, if_pos hend]) ts

theorem arms_eq_skip (r : Reader) (ts : List Token) :
    r.arms ts = (r.arms (skipLineEnds ts)).widen (skipLineEnds_suffix ts) :=
  eq_widen_skip (fun t us hend => by rw [arms, if_pos hend]) ts

mutual

theorem block_matches (hg : r.grammar = s.grammar) {ts us : List Token} (h : Behind ts us) :
    Matches Eq Relaid (r.block ts) (s.block us) := by
  rw [block_eq_skip r ts, block_eq_skip s us]
  refine Matches.widen _ _ ?_
  rcases h.next with ⟨hts, hus⟩ | ⟨t, u, ts', us', hts, hus, hend, hend', htoken, hrest⟩
  · rw [hts, hus, block, block]
    exact .pure rfl .nil
  · have hlt := length_lt_of_skipLineEnds hts
    rw [hts, hus, block, block]
    simp only [hend, hend', Bool.false_eq_true, if_false, htoken.closesBlock_eq, htoken.form?_eq, hg]
    split_ifs
    · exact .pure rfl (.token hend htoken hrest)
    · split
      · refine .widen _ _ (.report (cause_unexpected (.token hend htoken hrest) _) ?_)
        exact block_matches hg hrest.behind
      · refine .widen _ _ ((statementOf_matches hg _ hrest).andThen fun st vs ws hvs hws hstmt => ?_)
        exact (block_matches hg hstmt).map _
termination_by 8 * ts.length

theorem statementOf_matches (hg : r.grammar = s.grammar) (form : Form) {ts us : List Token} (h : Relaid ts us) :
    Matches Eq Behind (r.statementOf form ts) (s.statementOf form us) := by
  rw [statementOf.eq_def, statementOf.eq_def]
  cases form with
  | assignment target => exact assignmentTo_matches hg target false h.behind
  | opening o =>
    cases o with
    | declaration => exact assignmentOf_matches hg true h
    | conditional => exact conditional_matches hg h
    | selection => exact selection_matches hg h.behind
    | branch b => exact (skipTerminator_matches h).map _
termination_by 8 * ts.length + 5

theorem braces_matches (hg : r.grammar = s.grammar) {ts us : List Token} (h : Behind ts us) :
    Matches Eq Relaid (r.braces ts) (s.braces us) := by
  rw [braces, braces]
  refine (consume_matches h _).andThen fun _ vs ws hvs hws hopening => ?_
  refine (block_matches hg hopening.behind).andThen fun body xs ys hxs hys hbody => ?_
  exact (consume_matches hbody.behind _).map _
termination_by 8 * ts.length + 1

theorem conditional_matches (hg : r.grammar = s.grammar) {ts us : List Token} (h : Relaid ts us) :
    Matches Eq Behind (r.conditional ts) (s.conditional us) := by
  rw [conditional, conditional]
  refine (expression_matches hg .lowest h).andThen fun c vs ws hvs hws hcondition => ?_
  refine (braces_matches hg hcondition.behind).andThen fun body xs ys hxs hys hbody => ?_
  refine (alternative_matches hg hbody.behind).andThen fun alternative xs' ys' hxs' hys' halternative => ?_
  exact (skipTerminator_matches halternative).map _
termination_by 8 * ts.length + 4

theorem alternative_matches (hg : r.grammar = s.grammar) {ts us : List Token} (h : Behind ts us) :
    Matches Eq Relaid (r.alternative ts) (s.alternative us) := by
  rw [alternative_eq_skip r ts, alternative_eq_skip s us]
  refine Matches.widen _ _ ?_
  rcases h.next with ⟨hts, hus⟩ | ⟨t, u, ts', us', hts, hus, hend, hend', htoken, hrest⟩
  · rw [hts, hus, alternative, alternative]
    exact .pure rfl .nil
  · have hlt := length_lt_of_skipLineEnds hts
    rw [hts, hus, alternative, alternative]
    simp only [hend, hend', Bool.false_eq_true, if_false, htoken.2]
    split_ifs
    · exact .widen _ _ ((braces_matches hg hrest.behind).map some)
    · exact .pure rfl (.token hend htoken hrest)
termination_by 8 * ts.length + 2

theorem selection_matches (hg : r.grammar = s.grammar) {ts us : List Token} (h : Behind ts us) :
    Matches Eq Behind (r.selection ts) (s.selection us) := by
  rw [selection, selection, h.nextIs_eq]
  have hsubject : Matches Eq Relaid
      (if nextIs openBrace us then (⟨.absent, skipLineEnds ts, [], skipLineEnds_suffix ts⟩ : Parsed Expr ts)
        else (r.expression .lowest (skipLineEnds ts)).widen (skipLineEnds_suffix ts))
      (if nextIs openBrace us then (⟨.absent, skipLineEnds us, [], skipLineEnds_suffix us⟩ : Parsed Expr us)
        else (s.expression .lowest (skipLineEnds us)).widen (skipLineEnds_suffix us)) := by
    split_ifs
    · exact ⟨rfl, rfl, h⟩
    · exact (expression_matches hg .lowest h).widen _ _
  refine hsubject.andThen fun subject vs ws hvs hws hrest => ?_
  refine (consume_matches hrest.behind _).andThen fun _ vs' ws' hvs' hws' hopening => ?_
  refine (arms_matches hg hopening.behind).andThen fun arms xs ys hxs hys harms => ?_
  refine (consume_matches harms.behind _).andThen fun _ xs' ys' hxs' hys' hclosing => ?_
  exact (skipTerminator_matches hclosing).map _
termination_by 8 * ts.length + 4

theorem arms_matches (hg : r.grammar = s.grammar) {ts us : List Token} (h : Behind ts us) :
    Matches Eq Relaid (r.arms ts) (s.arms us) := by
  rw [arms_eq_skip r ts, arms_eq_skip s us]
  refine Matches.widen _ _ ?_
  rcases h.next with ⟨hts, hus⟩ | ⟨t, u, ts', us', hts, hus, hend, hend', htoken, hrest⟩
  · rw [hts, hus, arms, arms]
    exact .pure rfl .nil
  · have hlt := length_lt_of_skipLineEnds hts
    rw [hts, hus, arms, arms]
    simp only [hend, hend', Bool.false_eq_true, if_false, htoken.2]
    split_ifs
    · refine .widen _ _ ((armOf_matches hg _ hrest).andThen fun arm vs ws hvs hws harm => ?_)
      exact (arms_matches hg harm.behind).map _
    · exact .pure rfl (.token hend htoken hrest)
termination_by 8 * ts.length + 3

theorem armOf_matches (hg : r.grammar = s.grammar) (guarded : Bool) {ts us : List Token} (h : Relaid ts us) :
    Matches Eq Relaid (r.armOf guarded ts) (s.armOf guarded us) := by
  rw [armOf, armOf]
  have hguard : Matches Eq Relaid (if guarded then r.expression .lowest ts else .pure .absent)
      (if guarded then s.expression .lowest us else .pure .absent) := by
    split_ifs
    · exact expression_matches hg .lowest h
    · exact .pure rfl h
  refine hguard.andThen fun guard vs ws hvs hws hrest => ?_
  refine (consume_matches hrest.behind _).andThen fun _ xs ys hxs hys hcolon => ?_
  exact (block_matches hg hcolon.behind).map _
termination_by 8 * ts.length + 1

end

/-! ## Programs -/

theorem procedureOf_matches (hg : r.grammar = s.grammar) {ts us : List Token} (h : Relaid ts us) :
    Matches Eq Relaid (r.procedureOf ts) (s.procedureOf us) := by
  refine (((identifier_matches h).mapAnswer some).recover none).andThen fun name vs ws hvs hws hname => ?_
  refine (consume_matches hname.behind _).andThen fun _ vs' ws' hvs' hws' hleft => ?_
  refine (consume_matches hleft.behind _).andThen fun _ xs ys hxs hys hright => ?_
  exact (braces_matches hg hright.behind).map _

theorem procedureBy_matches (hg : r.grammar = s.grammar) {t u : Token} {ts us : List Token} (hend : t.isLineEnd = false)
    (htoken : t.Agrees u) (h : Relaid ts us) : Matches Eq Relaid (r.procedureBy t ts) (s.procedureBy u us) := by
  simp only [procedureBy, htoken.2]
  split_ifs
  · exact procedureOf_matches hg h
  · exact .report (cause_unexpected (.token hend htoken h) _) (.pure rfl h)

theorem procedures_eq_skip (r : Reader) (ts : List Token) :
    r.procedures ts = (r.procedures (skipLineEnds ts)).widen (skipLineEnds_suffix ts) :=
  eq_widen_skip (fun t us hend => by rw [procedures, if_pos hend]) ts

theorem procedures_matches (hg : r.grammar = s.grammar) {ts us : List Token} (h : Behind ts us) :
    Matches Eq Relaid (r.procedures ts) (s.procedures us) := by
  rw [procedures_eq_skip r ts, procedures_eq_skip s us]
  refine Matches.widen _ _ ?_
  rcases h.next with ⟨hts, hus⟩ | ⟨t, u, ts', us', hts, hus, hend, hend', htoken, hrest⟩
  · rw [hts, hus, procedures, procedures]
    exact .pure rfl .nil
  · have hlt := length_lt_of_skipLineEnds hts
    rw [hts, hus, procedures, procedures]
    simp only [hend, hend', Bool.false_eq_true, if_false]
    refine .widen _ _ ((procedureBy_matches hg hend htoken hrest).andThen fun p vs ws hvs hws hprocedure => ?_)
    exact (procedures_matches hg hprocedure.behind).map _
termination_by ts.length

theorem packageClause_matches {ts us : List Token} (h : Behind ts us) :
    Matches Eq Behind (r.packageClause ts) (s.packageClause us) := by
  have hkeyword := expect_matches (r := r) (s := s) h "package"
  have hname := identifier_matches (r := r) (s := s) hkeyword.rest
  have hending := terminator_matches (r := r) (s := s) hname.rest
  have hnamed := hname.recover ""
  have hended := hending.recover ()
  have hanswer := hkeyword.value
  simp only [rest_map] at hending hnamed hended
  rw [value_map, value_map] at hanswer
  cases hts : (r.expect "package" ts).value with
  | error f =>
    cases hus : (s.expect "package" us).value with
    | error g =>
      rw [hts, hus] at hanswer
      cases hanswer with
      | error hcause =>
        simp only [packageClause, hts, hus]
        exact ⟨rfl, congrArg (fun cause => [cause]) hcause, hending.rest⟩
    | ok u => rw [hts, hus] at hanswer; cases hanswer
  | ok t =>
    cases hus : (s.expect "package" us).value with
    | error g => rw [hts, hus] at hanswer; cases hanswer
    | ok u =>
      simp only [packageClause, hts, hus]
      refine ⟨by rw [hnamed.value], ?_, hending.rest⟩
      rw [List.map_append, List.map_append, hnamed.causes, hended.causes]

end Reader

/-- The readings differ in the positions of their faults only. -/
structure Reading.Alike (a b : Reading) : Prop where
  package : a.program.package = b.program.package
  procedures : a.program.procedures = b.program.procedures
  completed : a.completed = b.completed
  causes : a.program.faults.map Fault.cause = b.program.faults.map Fault.cause

theorem Relaid.Behind.alike {ts us : List Token} (h : Relaid.Behind ts us) :
    (Reading.ofTokens ts).Alike (Reading.ofTokens us) := by
  have hclause := Reader.packageClause_matches (r := .standard ts) (s := .standard us) h
  have hbody := Reader.procedures_matches (r := .standard ts) (s := .standard us) rfl hclause.rest
  simp only [Reading.ofTokens, hclause.value]
  split
  · exact ⟨rfl, rfl, rfl, hclause.causes⟩
  · exact ⟨rfl, hbody.value, rfl, by rw [List.map_append, List.map_append, hclause.causes, hbody.causes]⟩

/-! ## Other layouts of the same tokens -/

theorem Relaid.refl (ts : List Token) : Relaid ts ts := by
  induction ts with
  | nil => exact .nil
  | cons t ts ih =>
    cases hend : t.isLineEnd with
    | false => exact .token hend ⟨rfl, rfl⟩ ih
    | true => exact .ends hend hend rfl ih.behind

/-- A carriage return or a line feed. -/
def Token.IsBreak (t : Token) : Prop :=
  t.kind = .lineEnd ∧ (t.text = "\r" ∨ t.text = "\n")

theorem Token.IsBreak.isLineEnd {t : Token} (h : t.IsBreak) : t.isLineEnd = true := by
  simp [Token.isLineEnd, h.1]

theorem Token.IsBreak.quote_text {t : Token} (h : t.IsBreak) : Fault.quote t.text = Fault.endOfFile := by
  rcases h.2 with htext | htext <;> rw [htext] <;> decide

/-- A line end and a run of them are the same layout, wherever they stand. -/
theorem Relaid.breaks {t : Token} {breaks : List Token} (ht : t.IsBreak) (hsome : breaks ≠ [])
    (hbreaks : ∀ u ∈ breaks, u.IsBreak) (before behind : List Token) :
    Relaid (before ++ t :: behind) (before ++ (breaks ++ behind)) := by
  induction before with
  | nil =>
    cases breaks with
    | nil => exact absurd rfl hsome
    | cons u us =>
      obtain ⟨hu, hus⟩ := List.forall_mem_cons.mp hbreaks
      have hskip : skipLineEnds (us ++ behind) = skipLineEnds behind :=
        LineEnds.skip ⟨us, fun v hv => (hus v hv).isLineEnd, rfl⟩
      rw [List.nil_append, List.nil_append, List.cons_append]
      refine .ends ht.isLineEnd hu.isLineEnd (by rw [ht.quote_text, hu.quote_text]) ?_
      rw [hskip]
      exact (Relaid.refl behind).behind
  | cons u before ih =>
    cases hend : u.isLineEnd with
    | false => exact .token hend ⟨rfl, rfl⟩ ih
    | true => exact .ends hend hend rfl ih.behind

/-- A line end may be replaced by a run of line ends, whatever the tokens are: the same package and procedures are
read, up to the same place, and the same faults are reported with the same messages. -/
theorem Reading.ofTokens_breaks {t : Token} {breaks : List Token} (ht : t.IsBreak) (hsome : breaks ≠ [])
    (hbreaks : ∀ u ∈ breaks, u.IsBreak) (before behind : List Token) :
    (Reading.ofTokens (before ++ t :: behind)).Alike (.ofTokens (before ++ (breaks ++ behind))) ∧
      (Reading.ofTokens (before ++ t :: behind)).program.faults.map (fun f => (f.cause.name, f.message)) =
        (Reading.ofTokens (before ++ (breaks ++ behind))).program.faults.map fun f => (f.cause.name, f.message) := by
  have halike := (Relaid.breaks ht hsome hbreaks before behind).behind.alike
  refine ⟨halike, ?_⟩
  have hmap := congrArg (List.map fun c => (c.name, c.message)) halike.causes
  rwa [List.map_map, List.map_map] at hmap

/-- A procedure up to an assignment without a value. -/
def unassignedTokens : List Token :=
  [.bare .keyword "package", .bare .identifier "p", .bare .lineEnd "\n", .bare .keyword "func", .bare .identifier "f",
    .bare .delimiter "(", .bare .delimiter ")", .bare .delimiter openBrace, .bare .identifier "a", .bare .operator "="]

/-- The rest of a procedure that has a stray semicolon behind a line end and lacks its closing brace. -/
def strayTokens : List Token :=
  [.bare .keyword "break", .bare .lineEnd "\r", .bare .delimiter ";", .bare .lineEnd "\n"]

theorem Reading.ofTokens_breaks_faulty :
    (Reading.ofTokens (unassignedTokens ++ .bare .lineEnd "\n" :: strayTokens)).program.faults.map Fault.message =
        ["Expression expected, got 'end of file'", "Statement expected, got ';'", "\x7d expected, got 'end of file'"] ∧
      (Reading.ofTokens (unassignedTokens ++ .bare .lineEnd "\n" :: strayTokens)).Alike
        (.ofTokens (unassignedTokens ++ ([.bare .lineEnd "\r", .bare .lineEnd "\n", .bare .lineEnd "\n"] ++
          strayTokens))) := by
  have hbreaks : ∀ u ∈ [Token.bare .lineEnd "\r", .bare .lineEnd "\n", .bare .lineEnd "\n"], u.IsBreak := by
    intro u hu
    simp only [List.mem_cons, List.not_mem_nil, or_false] at hu
    rcases hu with rfl | rfl | rfl
    · exact ⟨rfl, .inl rfl⟩
    · exact ⟨rfl, .inr rfl⟩
    · exact ⟨rfl, .inr rfl⟩
  refine ⟨by decide +kernel, ?_⟩
  exact (Reading.ofTokens_breaks ⟨rfl, .inr rfl⟩ (by simp) hbreaks unassignedTokens strayTokens).1

end AddressLines
