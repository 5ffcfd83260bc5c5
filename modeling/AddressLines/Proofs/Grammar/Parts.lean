import AddressLines.Proofs.Grammar.Derivation
import AddressLines.Proofs.Grammar.Sound

/-!
# The parts of a layout

How each reader goes over a part that is written as the language has it: what it gives, what it leaves, and the faults
of the blocks in it.

A derivation and a reading may part their tokens differently: a statement that closes with a brace takes all line
ends behind it in search of an `else`, and a block takes the line ends before its closing brace, while in the
derivation those belong to what follows. So a statement is read up to line ends (`skipLineEnds` of both rests
agrees), under a condition on what follows it (`Follows`): behind line ends there is neither an `else` nor a
terminator left.
-/

namespace AddressLines

namespace Parsed

variable {α β : Type} {ts us vs : List Token} {a : α} {b : β} {fs gs : List Fault}

/-- The outcome is a given value and rest, and these faults are reported. -/
def Reports (r : Parsed α ts) (a : α) (rest : List Token) (faults : List Fault) : Prop :=
  r.value = a ∧ r.rest = rest ∧ r.faults = faults

/-- The outcome is a given value and rest, and nothing is reported. -/
def Gives (r : Parsed α ts) (a : α) (rest : List Token) : Prop :=
  r.Reports a rest []

theorem Reports.pure (a : α) : (Parsed.pure a : Parsed α ts).Reports a ts [] :=
  ⟨rfl, rfl, rfl⟩

theorem Reports.map {r : Parsed α ts} (f : α → β) (h : r.Reports a us fs) : (r.map f).Reports (f a) us fs :=
  ⟨congrArg f h.1, h.2⟩

theorem Reports.widen {r : Parsed α us} (hsuffix : us <:+ ts) (h : r.Reports a vs fs) :
    (r.widen hsuffix).Reports a vs fs :=
  h

section andThen

variable {r : Parsed α ts} {f : α → (us : List Token) → us.length ≤ ts.length → Parsed β us}

theorem Reports.andThen (hr : r.Reports a us fs) (hf : ∀ hle, (f a us hle).Reports b vs gs) :
    (r.andThen f).Reports b vs (fs ++ gs) := by
  obtain ⟨rfl, rfl, rfl⟩ := hr
  obtain ⟨hvalue, hrest, rfl⟩ := hf r.suffix.length_le
  exact ⟨hvalue, hrest, rfl⟩

/-- A part that reports nothing adds nothing to the faults of the next one. -/
theorem Gives.andThen (hr : r.Gives a us) (hf : ∀ hle, (f a us hle).Reports b vs fs) :
    (r.andThen f).Reports b vs fs :=
  Reports.andThen hr hf

theorem Reports.andThen_gives (hr : r.Reports a us fs) (hf : ∀ hle, (f a us hle).Gives b vs) :
    (r.andThen f).Reports b vs fs := by
  have h := Reports.andThen hr hf
  rwa [List.append_nil] at h

end andThen

theorem Reports.recover {r : Parsed (Except Fault α) ts} (fallback : α) (h : r.Reports (.ok a) us fs) :
    (r.recover fallback).Reports a us fs := by
  obtain ⟨hvalue, hrest, hfaults⟩ := h
  refine ⟨?_, by rw [rest_recover, hrest], ?_⟩
  · rw [value_recover, hvalue]
  · rw [faults_recover, hvalue, hfaults, List.append_nil]

end Parsed

/-! ## Line ends -/

theorem skipLineEnds_cons {t : Token} (us : List Token) (h : t.isLineEnd = false) : skipLineEnds (t :: us) = t :: us :=
  List.dropWhile_cons_of_neg (by simp [h])

theorem skipLineEnds_cons_lineEnd {t : Token} (us : List Token) (h : t.isLineEnd = true) :
    skipLineEnds (t :: us) = skipLineEnds us :=
  List.dropWhile_cons_of_pos h

theorem skipLineEnds_skipLineEnds (ts : List Token) : skipLineEnds (skipLineEnds ts) = skipLineEnds ts := by
  cases h : skipLineEnds ts with
  | nil => rfl
  | cons t us => exact skipLineEnds_cons us (isLineEnd_of_skipLineEnds h)

/-- A reader that passes over line ends looks at what is behind them only. -/
theorem Parsed.Reports.congr_skip {α : Type} {f : (ts : List Token) → Parsed α ts} {a : α} {ts us rest : List Token}
    {fs : List Fault}
    (hf : ∀ (t : Token) (us : List Token), t.isLineEnd = true → f (t :: us) = (f us).widen (List.suffix_cons t us))
    (hskip : skipLineEnds ts = skipLineEnds us) (h : (f us).Reports a rest fs) : (f ts).Reports a rest fs := by
  have hiff : ∀ ts : List Token, (f ts).Reports a rest fs ↔ (f (skipLineEnds ts)).Reports a rest fs := by
    intro ts
    induction ts with
    | nil => exact Iff.rfl
    | cons t us ih =>
      cases hend : t.isLineEnd with
      | false => rw [skipLineEnds_cons us hend]
      | true => rw [skipLineEnds_cons_lineEnd us hend, hf t us hend]; exact ih
  rwa [hiff, hskip, ← hiff]

theorem LineEnds.skip {ts rest : List Token} (h : LineEnds ts rest) : skipLineEnds ts = skipLineEnds rest := by
  obtain ⟨ends, hends, rfl⟩ := h
  induction ends with
  | nil => rfl
  | cons t ends ih =>
    obtain ⟨ht, hends⟩ := List.forall_mem_cons.mp hends
    rw [List.cons_append, skipLineEnds_cons_lineEnd _ ht, ih hends]

theorem Token.isLineEnd_of_not_isTerminator {t : Token} (h : t.isTerminator = false) : t.isLineEnd = false := by
  simp only [Token.isTerminator, Bool.or_eq_false_iff] at h
  exact h.1

theorem Token.Is.isLineEnd {kind : Kind} {text : String} {t : Token} (h : t.Is kind text) (hkind : kind ≠ .lineEnd) :
    t.isLineEnd = false := by
  simp [Token.isLineEnd, h.1, hkind]

/-- Behind line ends, the token that a derivation asks for comes next. -/
theorem LineEnds.next {ts us : List Token} {t : Token} {kind : Token.Kind} {text : String}
    (h : LineEnds ts (t :: us)) (ht : t.Is kind text) (hkind : kind ≠ .lineEnd) : skipLineEnds ts = t :: us := by
  rw [h.skip, skipLineEnds_cons us (ht.isLineEnd hkind)]

/-- What may follow a statement: behind line ends, neither an `else` nor a terminator. -/
def Follows (ts : List Token) : Prop :=
  ∀ t ∈ (skipLineEnds ts).head?, t.text ≠ "else" ∧ t.isTerminator = false

/-- What may follow a block. -/
def Closes (ts : List Token) : Prop :=
  ∀ t ∈ (skipLineEnds ts).head?, t.closesBlock = true

theorem Closes.follows {ts : List Token} (h : Closes ts) : Follows ts := by
  intro t ht
  have hclose := h t ht
  cases hs : skipLineEnds ts with
  | nil => simp [hs] at ht
  | cons t' us =>
    obtain rfl : t' = t := by simpa [hs] using ht
    have hend := isLineEnd_of_skipLineEnds hs
    simp only [Token.closesBlock, Bool.or_eq_true, beq_iff_eq] at hclose
    rcases hclose with (htext | htext) | htext <;>
      exact ⟨by rw [htext]; decide, Token.isTerminator_eq_false hend (by rw [htext]; decide)⟩

theorem closes_of_next {ts us : List Token} {t : Token} (hs : skipLineEnds ts = t :: us)
    (ht : t.closesBlock = true) : Closes ts := by
  intro t' ht'
  obtain rfl : t = t' := by simpa [hs] using ht'
  exact ht

/-! ## Single tokens -/

namespace Reader

open Parsed

variable {r : Reader} {ts us vs ws rest : List Token}

theorem consume_gives {text : String} {t : Token} (hs : skipLineEnds ts = t :: us) (ht : t.text = text) :
    (r.consume text ts).Gives () us :=
  ⟨rfl, by rw [rest_consume, hs]; rfl, (faults_consume_eq_nil text ts).mpr ⟨t, us, hs, ht⟩⟩

theorem identifier_gives {t : Token} {x : String} (ht : t.Names x) : (r.identifier (t :: us)).Gives (.ok x) us := by
  simp only [identifier, ht.1.1, ht.1.2, if_true]
  exact ⟨rfl, rfl, rfl⟩

theorem terminator_gives (h : Ends ts rest) : (r.terminator ts).Gives (.ok ()) rest := by
  cases h with
  | terminator ht =>
    simp only [terminator, ht, if_true]
    exact ⟨rfl, rfl, rfl⟩
  | brace ht =>
    have hend := Token.isTerminator_eq_false (ht.isLineEnd (by decide)) (by rw [ht.2]; decide)
    simp only [terminator, hend, ht.2, if_true]
    exact ⟨rfl, rfl, rfl⟩
  | finish => exact ⟨rfl, rfl, rfl⟩

end Reader

open Parsed in
/-- A terminator that may be there is taken with its statement; one that is taken too much is a line end. -/
theorem skipTerminator_gives {ts rest : List Token} (h : MayEnd ts rest) (hfollow : Follows rest) :
    ∃ us, (skipTerminator ts).Gives () us ∧ skipLineEnds us = skipLineEnds rest := by
  cases h with
  | terminator ht =>
    refine ⟨rest, ?_, rfl⟩
    simp only [skipTerminator, ht, if_true]
    exact ⟨rfl, rfl, rfl⟩
  | nothing =>
    cases ts with
    | nil => exact ⟨[], .pure (), rfl⟩
    | cons t us =>
      by_cases ht : t.isTerminator = true
      · refine ⟨us, ?_, ?_⟩
        · simp only [skipTerminator, ht, if_true]
          exact ⟨rfl, rfl, rfl⟩
        · cases hend : t.isLineEnd with
          | true => rw [skipLineEnds_cons_lineEnd us hend]
          | false =>
            have := (hfollow t (by rw [skipLineEnds_cons us hend]; rfl)).2
            simp [this] at ht
      · refine ⟨t :: us, ?_, rfl⟩
        simp only [skipTerminator, ht]
        exact .pure ()

/-- Where line ends are passed over first, in search of an `else`, none is found and a terminator is taken still. -/
theorem skipTerminator_skipLineEnds_gives {ts rest : List Token} (h : MayEnd ts rest) (hfollow : Follows rest) :
    (∀ t ∈ (skipLineEnds ts).head?, t.text ≠ "else") ∧
      ∃ us, (skipTerminator (skipLineEnds ts)).Gives () us ∧ skipLineEnds us = skipLineEnds rest := by
  have hskipped : (∀ t ∈ (skipLineEnds rest).head?, t.text ≠ "else") ∧
      ∃ us, (skipTerminator (skipLineEnds rest)).Gives () us ∧ skipLineEnds us = skipLineEnds rest := by
    refine ⟨fun t ht => (hfollow t ht).1, ?_⟩
    have hfollow' : Follows (skipLineEnds rest) := by rwa [Follows, skipLineEnds_skipLineEnds]
    obtain ⟨us, hgives, hus⟩ := skipTerminator_gives .nothing hfollow'
    exact ⟨us, hgives, by rw [hus, skipLineEnds_skipLineEnds]⟩
  cases h with
  | nothing => exact hskipped
  | @terminator t _ ht =>
    cases hend : t.isLineEnd with
    | true => rwa [skipLineEnds_cons_lineEnd rest hend]
    | false =>
      rw [skipLineEnds_cons rest hend]
      refine ⟨?_, skipTerminator_gives (.terminator ht) hfollow⟩
      rintro _ ⟨⟩ htext
      simp [Token.isTerminator, hend, htext] at ht

/-! ## Expressions -/

/-- The tokens of an expression split into those of its first operand and those of its links. -/
theorem Expr.Yields.split {e : Expr} {es : List Token} (h : e.Yields es) :
    ∃ fs ls, es = fs ++ ls ∧ e.first.Yields fs ∧ LinksYield e.chain ls := by
  induction h with
  | name h => exact ⟨_, [], (List.append_nil _).symm, .name h, .nil⟩
  | literal h h' => exact ⟨_, [], (List.append_nil _).symm, .literal h h', .nil⟩
  | unary h h' _ => exact ⟨_, [], (List.append_nil _).symm, .unary h h', .nil⟩
  | binary _ ht _ ihl ihr =>
    obtain ⟨fs, ls, rfl, hfirst, hlinks⟩ := ihl
    obtain ⟨fs', ls', rfl, hfirst', hlinks'⟩ := ihr
    refine ⟨fs, ls ++ _ :: (fs' ++ ls'), List.append_assoc .., hfirst, ?_⟩
    exact hlinks.append (.cons ht hfirst' hlinks')

/-- An expression opens with a name, a literal or an operator. -/
theorem Expr.Yields.head {e : Expr} {es : List Token} (h : e.Yields es) :
    ∃ t us, es = t :: us ∧ (t.kind = .identifier ∨ t.kind = .operator ∨
      (t.kind = .literal ∧ ∃ l, Literal.ofText? t.text = some l)) := by
  induction h with
  | name h => exact ⟨_, _, rfl, .inl h.1⟩
  | literal h h' => exact ⟨_, _, rfl, .inr (.inr ⟨h, _, h'⟩)⟩
  | unary h _ _ => exact ⟨_, _, rfl, .inr (.inl h.1)⟩
  | binary _ _ _ ih _ =>
    obtain ⟨t, us, rfl, ht⟩ := ih
    exact ⟨t, _, rfl, ht⟩

namespace Reader

open Parsed

variable {r : Reader} {ts us vs ws rest : List Token}

/-- The run of links of an expression ends here. -/
def Stops (r : Reader) (floor : Power) (ts : List Token) : Prop :=
  ∀ t ∈ ts.head?, ∀ op ∈ t.binOp?, ¬ floor < r.grammar.power op

theorem stops_of_kind {floor : Power} (h : ∀ t ∈ ts.head?, t.kind ≠ .operator) : r.Stops floor ts := by
  intro t ht op hop
  exact absurd (Token.is_of_binOp? hop).1 (h t ht)

theorem operand_gives {power : BinOp → Power} {e : Expr} {es : List Token} (h : e.Yields es) (hroot : e.root? = none)
    (hnormal : e.isNormal power = true) (rest : List Token) : (r.operand (es ++ rest)).Gives e rest := by
  induction h with
  | name ht =>
    rw [List.singleton_append, operand, if_neg (by simp [ht.1])]
    refine Reports.recover Expr.absent ?_
    simp only [primary, ht.1, ht.2, if_true]
    exact ⟨rfl, rfl, rfl⟩
  | literal hkind htext =>
    rw [List.singleton_append, operand, if_neg (by simp [hkind])]
    refine Reports.recover Expr.absent ?_
    simp only [primary, hkind, Token.literal_of_some htext, reduceCtorEq, if_true, if_false]
    exact ⟨rfl, rfl, rfl⟩
  | @unary t op e es ht he ih =>
    obtain ⟨habsent, hroot', hnormal'⟩ := Expr.isNormal_unary.mp hnormal
    rw [List.cons_append, operand, if_pos ht.1, ht.2]
    have hmap := (ih hroot' hnormal').map fun e => if e.isAbsent then Expr.absent else .unary op e
    rw [if_neg (by simp [habsent])] at hmap
    exact hmap.widen _
  | binary _ _ _ _ _ => cases hroot

theorem links_gives {power : BinOp → Power} {floor : Power} {links : List (BinOp × Expr)} {ls : List Token}
    (h : LinksYield links ls)
    (hlinks : ∀ link ∈ links, link.2.root? = none ∧ link.2.isNormal power = true ∧ floor < r.grammar.power link.1)
    (hstop : r.Stops floor rest) : (r.links floor (ls ++ rest)).Gives links rest := by
  induction h with
  | nil =>
    cases rest with
    | nil => rw [List.append_nil, Reader.links]; exact .pure []
    | cons t us =>
      rw [List.nil_append, Reader.links]
      split
      · exact .pure []
      · rename_i op hop
        rw [if_neg (hstop t rfl op hop)]
        exact .pure []
  | @cons op e links t es ls ht he hls ih =>
    obtain ⟨⟨hroot, hnormal, hfloor⟩, hlinks⟩ := List.forall_mem_cons.mp hlinks
    have hop : t.binOp? = some op := by
      rw [Token.binOp?, if_pos ht.1, ht.2, BinOp.ofSymbol?_symbol]
    rw [List.cons_append, List.append_assoc, Reader.links]
    simp only [hop, if_pos hfloor]
    refine Reports.widen _ ((operand_gives he hroot hnormal _).andThen fun hle => ?_)
    exact (ih hlinks).map _

/-- Whatever tree the tokens belong to, they are read as the tree of the run. -/
theorem expression_gives_ofLinks {floor : Power} {e : Expr} {es : List Token} (h : e.Yields es)
    (hfirst : e.first.isNormal r.grammar.power = true)
    (hlinks : ∀ link ∈ e.chain, link.2.isNormal r.grammar.power = true ∧ floor < r.grammar.power link.1)
    (hstop : r.Stops floor rest) :
    (r.expression floor (es ++ rest)).Gives (Expr.ofLinks r.grammar.power e.first e.chain) rest := by
  obtain ⟨fs, ls, rfl, hyields, hchain⟩ := h.split
  rw [List.append_assoc]
  refine (operand_gives hyields e.root?_first hfirst _).andThen fun hle => ?_
  have hgives := links_gives hchain (fun link hlink => ⟨Expr.root?_of_mem_chain hlink, hlinks link hlink⟩) hstop
  exact hgives.map _

theorem expression_gives {floor : Power} {e : Expr} {es : List Token} (h : e.Yields es)
    (hnormal : e.isNormal r.grammar.power = true) (hroot : ∀ o ∈ e.root?, floor < r.grammar.power o)
    (hstop : r.Stops floor rest) : (r.expression floor (es ++ rest)).Gives e rest := by
  have hgives := expression_gives_ofLinks h (Expr.isNormal_first hnormal) (fun link hlink =>
    ⟨Expr.isNormal_of_mem_chain hnormal hlink, Expr.lt_of_mem_chain hnormal hroot hlink⟩) hstop
  rwa [Expr.ofLinks_first_chain hnormal] at hgives

theorem lowest_lt_power (op : BinOp) : Power.lowest < op.power := by
  cases op <;> decide

theorem expression_derives (hr : r.grammar = .standard) {e : Expr} (h : e.Derives ts rest)
    (hrest : ∀ t ∈ rest.head?, t.kind ≠ .operator) : (r.expression .lowest ts).Gives e rest := by
  obtain ⟨es, rfl, hes, hnormal, -⟩ := h
  refine expression_gives hes ?_ (fun op _ => ?_) (stops_of_kind hrest)
  · rw [hr]; exact hnormal
  · rw [hr]; exact lowest_lt_power op

end Reader

theorem Ends.head_kind {ts rest : List Token} (h : Ends ts rest) : ∀ t ∈ ts.head?, t.kind ≠ .operator := by
  cases h with
  | @terminator t _ ht =>
    rintro _ ⟨⟩ hkind
    rw [Token.isTerminator_of_kind (by simp [hkind]) (by simp [hkind])] at ht
    cases ht
  | brace ht =>
    rintro _ ⟨⟩
    simp [ht.1]
  | finish => simp

theorem LineEnds.head_kind {ts us : List Token} {t : Token} {text : String} (h : LineEnds ts (t :: us))
    (ht : t.Is .delimiter text) : ∀ t ∈ ts.head?, t.kind ≠ .operator := by
  obtain ⟨ends, hends, rfl⟩ := h
  cases ends with
  | nil =>
    rintro _ ⟨⟩
    simp [ht.1]
  | cons t' ends =>
    rintro _ ⟨⟩ hkind
    have hend := hends t' (by simp)
    simp [Token.isLineEnd, hkind] at hend

/-! ## What opens a statement -/

namespace Token

/-- A name is neither a keyword nor a text that starts otherwise. -/
theorem ne_of_isName {x text : String} (h : isName x = true)
    (htext : text.toList.head?.any isNameStart = false ∨ keywords.contains text = true) : x ≠ text := by
  rintro rfl
  simp only [isName, Bool.and_eq_true, Bool.not_eq_true'] at h
  rcases htext with hstart | hkeyword
  · rw [h.1.1] at hstart
    cases hstart
  · rw [h.2] at hkeyword
    cases hkeyword

/-- The token opens a statement of the form, and nothing before it could take it for its own. -/
def Opens (t : Token) (form : Form) : Prop :=
  t.isTerminator = false ∧ t.closesBlock = false ∧ t.text ≠ "else" ∧ Grammar.standard.form? t = some form

theorem opens_of_names {t : Token} {x : String} (h : t.Names x) : t.Opens (.assignment x) := by
  obtain ⟨⟨hkind, rfl⟩, hname⟩ := h
  refine ⟨isTerminator_of_kind (by simp [hkind]) (by simp [hkind]), ?_, ne_of_isName hname (by decide), ?_⟩
  · have hbrace : t.text ≠ closeBrace := ne_of_isName hname (by decide)
    have hcase : t.text ≠ "case" := ne_of_isName hname (by decide)
    have hdefault : t.text ≠ "default" := ne_of_isName hname (by decide)
    simp [closesBlock, hbrace, hcase, hdefault]
  · have hvar : t.text ≠ "var" := ne_of_isName hname (by decide)
    simp [Grammar.form?, hkind, hvar]

theorem opens_of_keyword {t : Token} {text : String} {o : Opening} (h : t.Is .keyword text)
    (ho : Grammar.standardOpening text = some o) : t.Opens (.opening o) := by
  obtain ⟨hkind, rfl⟩ := h
  have htext : t.text ∈ ["var", "if", "switch", "break", "continue", "return"] := by
    rcases Grammar.standardOpening_eq_some ho with ⟨h, -⟩ | ⟨h, -⟩ | ⟨h, -⟩ | ⟨b, h, -⟩ <;> rw [h]
    any_goals decide
    cases b <;> decide
  have hfixed : ∀ s ∈ ["var", "if", "switch", "break", "continue", "return"],
      s ≠ "else" ∧ s ≠ closeBrace ∧ s ≠ "case" ∧ s ≠ "default" := by decide
  obtain ⟨helse, hbrace, hcase, hdefault⟩ := hfixed t.text htext
  refine ⟨isTerminator_of_kind (by simp [hkind]) (by simp [hkind]), ?_, helse, ?_⟩
  · simp [closesBlock, hbrace, hcase, hdefault]
  · simp [Grammar.form?, hkind, Grammar.standard, ho]

end Token

/-- Assignments and branches have no blocks in them. -/
def Stmt.isSimple : Stmt → Bool
  | .assign _ _ _ | .branch _ => true
  | _ => false

theorem Stmt.Derives.opens {s : Stmt} {ts rest : List Token} (h : s.Derives ts rest) (hsimple : s.isSimple = true) :
    ∃ t us form, ts = t :: us ∧ t.Opens form := by
  cases h with
  | assign hx _ _ _ _ => exact ⟨_, _, _, rfl, Token.opens_of_names hx⟩
  | define hx _ _ _ _ => exact ⟨_, _, _, rfl, Token.opens_of_names hx⟩
  | declare hvar _ _ _ _ _ => exact ⟨_, _, _, rfl, Token.opens_of_keyword hvar rfl⟩
  | @branch _ b _ _ ht _ => exact ⟨_, _, .opening (.branch b), rfl, Token.opens_of_keyword ht (by cases b <;> rfl)⟩
  | _ => cases hsimple

theorem Expr.Derives.head {e : Expr} {ts rest : List Token} (h : e.Derives ts rest) :
    ∃ t us, ts = t :: us ∧ t.isLineEnd = false ∧ t.text ≠ openBrace := by
  obtain ⟨es, rfl, hes, -, hscan⟩ := h
  obtain ⟨t, us, rfl, ht⟩ := hes.head
  refine ⟨t, us ++ rest, rfl, ?_, ?_⟩
  · rcases ht with hkind | hkind | ⟨hkind, -⟩ <;> simp [Token.isLineEnd, hkind]
  · intro htext
    have hscanned := hscan t (by simp)
    rcases ht with hkind | hkind | ⟨-, l, hl⟩
    · simp only [Token.isScanned, hkind] at hscanned
      exact Token.ne_of_isName hscanned (by decide) htext
    · simp only [Token.isScanned, hkind, htext] at hscanned
      revert hscanned
      decide
    · have hnone : Literal.ofText? openBrace = none := by decide
      rw [htext, hnone] at hl
      cases hl

/-! ## Statements -/

namespace Reader

open Parsed

variable {r : Reader} {ts us vs ws rest : List Token} {fs gs : List Fault}

theorem assignedValue_gives (hr : r.grammar = .standard) (x : String) (defines : Bool) {e : Expr}
    (he : e.Derives ts us) (hend : Ends us rest) :
    (r.assignedValue x defines ts).Gives (.assign x defines e) rest := by
  refine (expression_derives hr he hend.head_kind).andThen fun hle => ?_
  exact ((terminator_gives hend).recover ()).map _

theorem nextIs_eq {text : String} {t : Token} (hs : skipLineEnds ts = t :: us) : nextIs text ts = (t.text == text) := by
  simp [nextIs, hs]

/-- An assignment from its sign on. -/
theorem assignmentTo_gives (hr : r.grammar = .standard) (x : String) (declared : Bool) {sign : Token} {e : Expr}
    (hends : LineEnds ts (sign :: us)) (he : e.Derives us vs) (hend : Ends vs rest) {defines : Bool}
    (hsign : (sign.Is .operator ":=" ∧ defines = true) ∨ (sign.Is .operator "=" ∧ defines = declared)) :
    (r.assignmentTo x declared ts).Gives (.assign x defines e) rest := by
  rcases hsign with ⟨hsign, rfl⟩ | ⟨hsign, rfl⟩
  · have hs := hends.next hsign (by decide)
    have htail : (skipLineEnds ts).tail = us := by rw [hs]; rfl
    simp only [assignmentTo, nextIs_eq hs, hsign.2]
    rw [if_pos (by decide)]
    refine Reports.widen _ ?_
    rw [htail]
    exact assignedValue_gives hr x true he hend
  · have hs := hends.next hsign (by decide)
    have htail : (skipLineEnds ts).tail = us := by rw [hs]; rfl
    simp only [assignmentTo, nextIs_eq hs, hsign.2]
    rw [if_neg (by decide), if_pos (by decide)]
    refine Reports.widen _ ?_
    rw [htail]
    exact assignedValue_gives hr x defines he hend

theorem declaration_gives (hr : r.grammar = .standard) {x sign : Token} {target : String} {e : Expr}
    (hx : x.Names target) (hends : LineEnds ts (sign :: us)) (hsign : sign.Is .operator "=" ∨ sign.Is .operator ":=")
    (he : e.Derives us vs) (hend : Ends vs rest) :
    (r.assignmentOf true (x :: ts)).Gives (.assign target true e) rest := by
  refine ((identifier_gives hx).recover "").andThen fun hle => ?_
  refine assignmentTo_gives hr target true hends he hend ?_
  rcases hsign with hsign | hsign
  · exact .inr ⟨hsign, rfl⟩
  · exact .inl ⟨hsign, rfl⟩

/-- An assignment or a branch is read up to line ends behind it. -/
theorem simple_gives (hr : r.grammar = .standard) {s : Stmt} (h : s.Derives ts rest) (hsimple : s.isSimple = true)
    (hfollow : Follows rest) : ∃ t us form vs, ts = t :: us ∧ t.Opens form ∧ (r.statementOf form us).Gives s vs ∧
      skipLineEnds vs = skipLineEnds rest := by
  cases h with
  | assign hx hends hsign he hend =>
    refine ⟨_, _, _, rest, rfl, Token.opens_of_names hx, ?_, rfl⟩
    rw [statementOf]
    exact assignmentTo_gives hr _ false hends he hend (.inr ⟨hsign, rfl⟩)
  | define hx hends hsign he hend =>
    refine ⟨_, _, _, rest, rfl, Token.opens_of_names hx, ?_, rfl⟩
    rw [statementOf]
    exact assignmentTo_gives hr _ false hends he hend (.inl ⟨hsign, rfl⟩)
  | declare hvar hx hends hsign he hend =>
    refine ⟨_, _, _, rest, rfl, Token.opens_of_keyword hvar rfl, ?_, rfl⟩
    rw [statementOf]
    exact declaration_gives hr hx hends hsign he hend
  | @branch t b _ _ ht hend =>
    obtain ⟨vs, hgives, hvs⟩ := skipTerminator_gives hend hfollow
    have hopens : t.Opens (.opening (.branch b)) := Token.opens_of_keyword ht (by cases b <;> rfl)
    refine ⟨_, _, _, vs, rfl, hopens, ?_, hvs⟩
    rw [statementOf]
    exact hgives.map _
  | _ => cases hsimple

theorem block_congr {b : Block} (hskip : skipLineEnds ts = skipLineEnds us) (h : (r.block us).Reports b rest fs) :
    (r.block ts).Reports b rest fs :=
  Reports.congr_skip (f := r.block) (fun t us hend => by rw [block, if_pos hend]) hskip h

theorem arms_congr {arms : List (Arm Stmt)} (hskip : skipLineEnds ts = skipLineEnds us)
    (h : (r.arms us).Reports arms rest fs) : (r.arms ts).Reports arms rest fs :=
  Reports.congr_skip (f := r.arms) (fun t us hend => by rw [Reader.arms, if_pos hend]) hskip h

theorem alternative_congr {alternative : Option Block} (hskip : skipLineEnds ts = skipLineEnds us)
    (h : (r.alternative us).Reports alternative rest fs) : (r.alternative ts).Reports alternative rest fs :=
  Reports.congr_skip (f := r.alternative) (fun t us hend => by rw [Reader.alternative, if_pos hend]) hskip h

theorem block_nil_gives (hclose : Closes rest) : (r.block rest).Gives [] (skipLineEnds rest) := by
  refine block_congr (skipLineEnds_skipLineEnds rest).symm ?_
  cases hs : skipLineEnds rest with
  | nil => rw [block]; exact .pure []
  | cons t us =>
    have ht : t.closesBlock = true := hclose t (by rw [hs]; rfl)
    rw [block, if_neg (by simp [isLineEnd_of_skipLineEnds hs]), if_pos ht]
    exact .pure []

theorem block_cons_reports (hr : r.grammar = .standard) {t : Token} {form : Form} {s : Stmt} {ss : Block}
    (hs : skipLineEnds ts = t :: us) (ht : t.Opens form) (hstmt : (r.statementOf form us).Reports s vs fs)
    (hblock : (r.block vs).Reports ss rest gs) : (r.block ts).Reports (s :: ss) rest (fs ++ gs) := by
  obtain ⟨-, hclose, -, hform⟩ := ht
  refine block_congr (skipLineEnds_skipLineEnds ts).symm ?_
  rw [hs, block, if_neg (by simp [isLineEnd_of_skipLineEnds hs]), if_neg (by simp [hclose])]
  rw [← hr] at hform
  simp only [hform]
  refine Reports.widen _ (hstmt.andThen fun hle => ?_)
  exact hblock.map _

theorem alternative_none_gives (h : ∀ t ∈ (skipLineEnds ts).head?, t.text ≠ "else") :
    (r.alternative ts).Gives none (skipLineEnds ts) := by
  refine alternative_congr (skipLineEnds_skipLineEnds ts).symm ?_
  cases hs : skipLineEnds ts with
  | nil => rw [alternative]; exact .pure none
  | cons t us =>
    rw [alternative, if_neg (by simp [isLineEnd_of_skipLineEnds hs]), if_neg (h t (by rw [hs]; rfl))]
    exact .pure none

theorem alternative_some_reports {other : Token} {body : Block} (hs : skipLineEnds ts = other :: us)
    (hother : other.text = "else") (hbody : (r.braces us).Reports body rest fs) :
    (r.alternative ts).Reports (some body) rest fs := by
  refine alternative_congr (skipLineEnds_skipLineEnds ts).symm ?_
  rw [hs, alternative, if_neg (by simp [isLineEnd_of_skipLineEnds hs]), if_pos hother]
  exact (hbody.map some).widen _

theorem braces_reports {opening closing : Token} {body : Block} (hopening : skipLineEnds ts = opening :: us)
    (htext : opening.text = openBrace) (hbody : (r.block us).Reports body vs fs)
    (hclosing : skipLineEnds vs = closing :: rest) (htext' : closing.text = closeBrace) :
    (r.braces ts).Reports body rest fs := by
  rw [braces]
  refine (consume_gives hopening htext).andThen fun _ => ?_
  refine hbody.andThen_gives fun _ => ?_
  exact (consume_gives hclosing htext').map _

theorem conditional_reports (hr : r.grammar = .standard) {c : Expr} {body : Block} {alternative : Option Block}
    {xs : List Token} (hc : c.Derives ts us) (hus : ∀ t ∈ us.head?, t.kind ≠ .operator)
    (hbody : (r.braces us).Reports body vs fs) (halternative : (r.alternative vs).Reports alternative ws gs)
    (hend : (skipTerminator ws).Gives () xs) : (r.conditional ts).Reports (.cond c body alternative) xs (fs ++ gs) := by
  rw [conditional]
  refine (expression_derives hr hc hus).andThen fun _ => ?_
  refine hbody.andThen fun _ => ?_
  refine halternative.andThen_gives fun _ => ?_
  exact hend.map _

/-- The braces of a switch, and what is in them. -/
theorem armsInBraces_reports {opening closing : Token} {arms : List (Arm Stmt)} {subject : Expr} {xs ys : List Token}
    (hopening : skipLineEnds ts = opening :: us) (htext : opening.text = openBrace)
    (harms : (r.arms us).Reports arms vs fs)
    (hclosing : skipLineEnds vs = closing :: xs) (htext' : closing.text = closeBrace)
    (hend : (skipTerminator xs).Gives () ys) :
    ((r.consume openBrace ts).andThen fun _ us _ => (r.arms us).andThen fun arms vs _ =>
      (r.consume closeBrace vs).andThen fun _ xs _ => (skipTerminator xs).map fun _ =>
        Stmt.switch subject arms).Reports (.switch subject arms) ys fs := by
  refine (consume_gives hopening htext).andThen fun _ => ?_
  refine harms.andThen_gives fun _ => ?_
  refine (consume_gives hclosing htext').andThen fun _ => ?_
  exact hend.map _

theorem selection_tagless_reports {opening closing : Token} {arms : List (Arm Stmt)} {xs ys : List Token}
    (hopening : skipLineEnds ts = opening :: us) (htext : opening.text = openBrace)
    (harms : (r.arms us).Reports arms vs fs)
    (hclosing : skipLineEnds vs = closing :: xs) (htext' : closing.text = closeBrace)
    (hend : (skipTerminator xs).Gives () ys) : (r.selection ts).Reports (.switch .absent arms) ys fs := by
  rw [selection, if_pos (by simp [nextIs_eq hopening, htext])]
  have hskip : skipLineEnds (skipLineEnds ts) = opening :: us := by rw [skipLineEnds_skipLineEnds, hopening]
  have hsubject : (⟨.absent, skipLineEnds ts, [], skipLineEnds_suffix ts⟩ : Parsed Expr ts).Gives .absent
      (skipLineEnds ts) := ⟨rfl, rfl, rfl⟩
  refine hsubject.andThen fun _ => ?_
  exact armsInBraces_reports hskip htext harms hclosing htext' hend

theorem selection_tagged_reports (hr : r.grammar = .standard) {opening closing : Token} {arms : List (Arm Stmt)}
    {subject : Expr} {xs ys : List Token} (hends : LineEnds ts us) (hsubject : subject.Derives us vs)
    (hvs : ∀ t ∈ vs.head?, t.kind ≠ .operator) (hopening : skipLineEnds vs = opening :: ws)
    (htext : opening.text = openBrace) (harms : (r.arms ws).Reports arms xs fs)
    (hclosing : skipLineEnds xs = closing :: ys) (htext' : closing.text = closeBrace)
    (hend : (skipTerminator ys).Gives () rest) : (r.selection ts).Reports (.switch subject arms) rest fs := by
  obtain ⟨t, us', rfl, hline, hbrace⟩ := hsubject.head
  have hs : skipLineEnds ts = t :: us' := by rw [hends.skip, skipLineEnds_cons us' hline]
  rw [selection, if_neg (by simp [nextIs_eq hs, hbrace])]
  have hexpr : (r.expression .lowest (skipLineEnds ts)).Gives subject vs := by
    rw [hs]
    exact expression_derives hr hsubject hvs
  refine Gives.andThen (hexpr.widen _) fun _ => ?_
  exact armsInBraces_reports hopening htext harms hclosing htext' hend

theorem arms_nil_gives {closing : Token} (hclosing : skipLineEnds rest = closing :: us)
    (htext : closing.text = closeBrace) :
    (r.arms rest).Gives [] (skipLineEnds rest) := by
  refine arms_congr (skipLineEnds_skipLineEnds rest).symm ?_
  rw [hclosing, arms, if_neg (by simp [isLineEnd_of_skipLineEnds hclosing]), if_neg (by rw [htext]; decide)]
  exact .pure []

theorem arms_cons_reports {t : Token} {arm : Arm Stmt} {arms : List (Arm Stmt)} (hs : skipLineEnds ts = t :: us)
    (ht : t.text = "case" ∨ t.text = "default") (harm : (r.armOf (t.text == "case") us).Reports arm vs fs)
    (harms : (r.arms vs).Reports arms rest gs) : (r.arms ts).Reports (arm :: arms) rest (fs ++ gs) := by
  refine arms_congr (skipLineEnds_skipLineEnds ts).symm ?_
  rw [hs, Reader.arms, if_neg (by simp [isLineEnd_of_skipLineEnds hs]), if_pos ht]
  refine Reports.widen _ (harm.andThen fun _ => ?_)
  exact harms.map _

theorem armOf_reports (guarded : Bool) {guard : Expr} {colon : Token} {body : Block}
    (hguard : (if guarded then r.expression .lowest ts else .pure .absent).Gives guard us)
    (hcolon : skipLineEnds us = colon :: vs) (htext : colon.text = ":") (hbody : (r.block vs).Reports body rest fs) :
    (r.armOf guarded ts).Reports ⟨guard, body⟩ rest fs := by
  rw [armOf]
  refine hguard.andThen fun _ => ?_
  refine (consume_gives hcolon htext).andThen fun _ => ?_
  exact hbody.map _

end Reader

end AddressLines
