import AddressLines.Grammar.Program
import AddressLines.Proofs.Grammar.Yield
import Mathlib.Tactic.SplitIfs

/-!
# Reading loses nothing

A reading without faults has put every token into its tree, line ends and semicolons aside: the kept tokens
of the input are exactly those of the tree, in order (`Program.Yields`).

Each reader owes one contract, `Parsed.Reads`: if it reports nothing, the kept tokens it took are the tokens
of its value. A path on which a token is skipped reports a fault, so the contract holds there for want of
its premise. The contracts of the mutually recursive readers are proved together, along the number of
tokens that are left. Inside an expression no line end is passed over, and there the contract is a sharper one,
`Parsed.Takes`, about all tokens.
-/

namespace AddressLines

/-! ## Kept tokens -/

theorem Token.isTerminator_eq_false {t : Token} (hend : t.isLineEnd = false) (htext : t.text ≠ ";") :
    t.isTerminator = false := by
  simp [Token.isTerminator, hend, htext]

theorem Token.isTerminator_of_isLineEnd {t : Token} (h : t.isLineEnd = true) : t.isTerminator = true := by
  simp [Token.isTerminator, h]

/-- Terminators are line ends and delimiters. -/
theorem Token.isTerminator_of_kind {t : Token} (hend : t.kind ≠ .lineEnd) (hdelim : t.kind ≠ .delimiter) :
    t.isTerminator = false := by
  simp [Token.isTerminator, Token.isLineEnd, hend, hdelim]

theorem kept_cons {t : Token} (us : List Token) (h : t.isTerminator = false) : kept (t :: us) = t :: kept us := by
  simp [kept, h]

theorem kept_cons_terminator {t : Token} (us : List Token) (h : t.isTerminator = true) :
    kept (t :: us) = kept us := by
  simp [kept, h]

theorem kept_append (ts us : List Token) : kept (ts ++ us) = kept ts ++ kept us :=
  List.filter_append ..

theorem kept_skipLineEnds (ts : List Token) : kept (skipLineEnds ts) = kept ts := by
  induction ts with
  | nil => rfl
  | cons t us ih =>
    cases h : t.isLineEnd with
    | false => rw [skipLineEnds, List.dropWhile_cons_of_neg (by simp [h])]
    | true =>
      rw [kept_cons_terminator us (Token.isTerminator_of_isLineEnd h), ← ih, skipLineEnds,
        List.dropWhile_cons_of_pos h]
      rfl

/-- Skipping stops at a token that is no line end. -/
theorem isLineEnd_of_skipLineEnds {ts us : List Token} {t : Token} (h : skipLineEnds ts = t :: us) :
    t.isLineEnd = false := by
  have hhead := List.head?_dropWhile_not Token.isLineEnd ts
  rw [show ts.dropWhile Token.isLineEnd = t :: us from h] at hhead
  exact hhead

theorem nextIs_eq_true {text : String} {ts : List Token} (h : nextIs text ts = true) :
    ∃ t us, skipLineEnds ts = t :: us ∧ t.text = text := by
  cases hs : skipLineEnds ts with
  | nil => simp [nextIs, hs] at h
  | cons t us => exact ⟨t, us, rfl, by simpa [nextIs, hs] using h⟩

/-- A token told by its text is kept, unless that text is a semicolon. -/
theorem kept_of_skipLineEnds {ts us : List Token} {t : Token} (h : skipLineEnds ts = t :: us)
    (htext : t.text ≠ ";") : kept ts = t :: kept us := by
  rw [← kept_skipLineEnds, h, kept_cons us]
  exact Token.isTerminator_eq_false (isLineEnd_of_skipLineEnds h) htext

/-! ## The contract -/

namespace Parsed

theorem value_recover {α : Type} {ts : List Token} (a : α) (r : Parsed (Except Fault α) ts) :
    (r.recover a).value = match r.value with | .ok b => b | .error _ => a := by
  obtain ⟨value, rest, faults, suffix⟩ := r
  cases value <;> rfl

theorem faults_recover {α : Type} {ts : List Token} (a : α) (r : Parsed (Except Fault α) ts) :
    (r.recover a).faults = r.faults ++ match r.value with | .ok _ => [] | .error f => [f] := by
  obtain ⟨value, rest, faults, suffix⟩ := r
  cases value with
  | ok b => exact (List.append_nil faults).symm
  | error f => rfl

variable {α β : Type} {ts us : List Token} {Y : α → List Token → Prop} {W : β → List Token → Prop}

/-- If nothing is reported, the kept tokens that were taken are the tokens of the value. -/
def Reads (r : Parsed α ts) (Y : α → List Token → Prop) : Prop :=
  r.faults = [] → ∃ ys, Y r.value ys ∧ kept ts = ys ++ kept r.rest

theorem Reads.pure {a : α} (h : Y a []) : (Parsed.pure a : Parsed α ts).Reads Y :=
  fun _ => ⟨[], h, rfl⟩

theorem Reads.of_faults {r : Parsed α ts} (h : r.faults ≠ []) : r.Reads Y :=
  fun hnone => absurd hnone h

theorem Reads.map {r : Parsed α ts} {f : α → β} (h : r.Reads fun a ys => W (f a) ys) : (r.map f).Reads W :=
  h

theorem Reads.imp {Y' : α → List Token → Prop} {r : Parsed α ts} (h : r.Reads Y)
    (himp : ∀ a ys, Y a ys → Y' a ys) : r.Reads Y' := by
  intro hnone
  obtain ⟨ys, hY, hkept⟩ := h hnone
  exact ⟨ys, himp _ _ hY, hkept⟩

theorem Reads.andThen {r : Parsed α ts}
    {f : α → (us : List Token) → us.length ≤ ts.length → Parsed β us} (hr : r.Reads Y)
    (hf : ∀ a ys us hle, Y a ys → (f a us hle).Reads fun b ws => W b (ys ++ ws)) : (r.andThen f).Reads W := by
  intro hnone
  rw [faults_andThen, List.append_eq_nil_iff] at hnone
  obtain ⟨ys, hY, hkept⟩ := hr hnone.1
  obtain ⟨ws, hW, hkept'⟩ := hf r.value ys r.rest r.suffix.length_le hY hnone.2
  refine ⟨ys ++ ws, hW, ?_⟩
  rw [hkept, hkept', rest_andThen, List.append_assoc]

theorem Reads.recover {r : Parsed (Except Fault α) ts} {fallback : α}
    (h : ∀ a, r.value = .ok a → ∃ ys, Y a ys ∧ kept ts = ys ++ kept r.rest) : (r.recover fallback).Reads Y := by
  intro hnone
  rw [faults_recover] at hnone
  cases hvalue : r.value with
  | error f => simp [hvalue] at hnone
  | ok a =>
    obtain ⟨ys, hY, hkept⟩ := h a hvalue
    exact ⟨ys, by rwa [value_recover, hvalue], by rw [hkept, rest_recover]⟩

theorem Reads.widen {r : Parsed α us} (hsuffix : us <:+ ts) (zs : List Token)
    (hkept : kept ts = zs ++ kept us) (h : r.Reads fun a ys => Y a (zs ++ ys)) : (r.widen hsuffix).Reads Y := by
  intro hnone
  obtain ⟨ys, hY, hrest⟩ := h hnone
  exact ⟨zs ++ ys, hY, by rw [hkept, hrest, rest_widen, List.append_assoc]⟩

theorem Reads.widen_cons {t : Token} {r : Parsed α us} (ht : t.isTerminator = false)
    (h : r.Reads fun a ys => Y a (t :: ys)) : (r.widen (List.suffix_cons t us)).Reads Y :=
  Reads.widen _ [t] (kept_cons us ht) h

theorem Reads.widen_lineEnd {t : Token} {r : Parsed α us} (ht : t.isLineEnd = true) (h : r.Reads Y) :
    (r.widen (List.suffix_cons t us)).Reads Y :=
  Reads.widen _ [] (kept_cons_terminator us (Token.isTerminator_of_isLineEnd ht)) h

/-- If nothing is reported, the tokens that were taken are those of the value, without exception. -/
def Takes (r : Parsed α ts) (Y : α → List Token → Prop) : Prop :=
  r.faults = [] → ∃ ys, Y r.value ys ∧ ts = ys ++ r.rest

theorem Takes.pure {a : α} (h : Y a []) : (Parsed.pure a : Parsed α ts).Takes Y :=
  fun _ => ⟨[], h, rfl⟩

theorem Takes.of_faults {r : Parsed α ts} (h : r.faults ≠ []) : r.Takes Y :=
  fun hnone => absurd hnone h

theorem Takes.map {r : Parsed α ts} {f : α → β} (h : r.Takes fun a ys => W (f a) ys) : (r.map f).Takes W :=
  h

theorem Takes.imp {Y' : α → List Token → Prop} {r : Parsed α ts} (h : r.Takes Y)
    (himp : ∀ a ys, Y a ys → Y' a ys) : r.Takes Y' := by
  intro hnone
  obtain ⟨ys, hY, hts⟩ := h hnone
  exact ⟨ys, himp _ _ hY, hts⟩

theorem Takes.andThen {r : Parsed α ts}
    {f : α → (us : List Token) → us.length ≤ ts.length → Parsed β us} (hr : r.Takes Y)
    (hf : ∀ a ys us hle, Y a ys → (f a us hle).Takes fun b ws => W b (ys ++ ws)) : (r.andThen f).Takes W := by
  intro hnone
  rw [faults_andThen, List.append_eq_nil_iff] at hnone
  obtain ⟨ys, hY, hts⟩ := hr hnone.1
  obtain ⟨ws, hW, hrest⟩ := hf r.value ys r.rest r.suffix.length_le hY hnone.2
  refine ⟨ys ++ ws, hW, ?_⟩
  rw [rest_andThen, List.append_assoc, ← hrest, ← hts]

theorem Takes.widen_cons {t : Token} {r : Parsed α us} (h : r.Takes fun a ys => Y a (t :: ys)) :
    (r.widen (List.suffix_cons t us)).Takes Y := by
  intro hnone
  obtain ⟨ys, hY, hus⟩ := h hnone
  refine ⟨t :: ys, hY, ?_⟩
  rw [rest_widen, List.cons_append, ← hus]

theorem Takes.reads {r : Parsed α ts} (h : r.Takes Y) (hkept : ∀ a ys, Y a ys → kept ys = ys) : r.Reads Y := by
  intro hnone
  obtain ⟨ys, hY, hts⟩ := h hnone
  refine ⟨ys, hY, ?_⟩
  calc kept ts = kept (ys ++ r.rest) := congrArg kept hts
    _ = kept ys ++ kept r.rest := kept_append ys r.rest
    _ = ys ++ kept r.rest := by rw [hkept _ _ hY]

end Parsed

/-! ## Single tokens -/

namespace Reader

open Parsed

variable {r : Reader}

theorem rest_consume (text : String) (ts : List Token) : (r.consume text ts).rest = (skipLineEnds ts).tail := by
  simp only [consume, rest_recover, rest_map, expect]

/-- Nothing is reported exactly if the next token that is no line end has the text. -/
theorem faults_consume_eq_nil (text : String) (ts : List Token) :
    (r.consume text ts).faults = [] ↔ ∃ t us, skipLineEnds ts = t :: us ∧ t.text = text := by
  simp only [consume, faults_recover, faults_map, value_map, expect, List.nil_append]
  cases skipLineEnds ts with
  | nil => simp [Except.map]
  | cons t us => by_cases ht : t.text = text <;> simp [Except.map, ht]

theorem consume_reads (text : String) (htext : text ≠ ";") (ts : List Token) :
    (r.consume text ts).Reads fun _ ys => ∃ t : Token, t.text = text ∧ ys = [t] := by
  intro hnone
  obtain ⟨t, us, hs, ht⟩ := (faults_consume_eq_nil text ts).mp hnone
  refine ⟨[t], ⟨t, ht, rfl⟩, ?_⟩
  rw [rest_consume, kept_of_skipLineEnds hs (ht ▸ htext), hs]
  rfl

theorem identifier_eq_ok {ts : List Token} {x : String} (h : (r.identifier ts).value = .ok x) :
    ∃ t : Token, t.Is .identifier x ∧ kept ts = t :: kept (r.identifier ts).rest := by
  cases ts with
  | nil => simp [identifier] at h
  | cons t us =>
    by_cases ht : t.kind = .identifier
    · simp only [identifier, ht, if_true, Except.ok.injEq] at h
      refine ⟨t, ⟨ht, h⟩, ?_⟩
      simp only [identifier, ht, if_true]
      exact kept_cons us (Token.isTerminator_of_kind (by simp [ht]) (by simp [ht]))
    · simp [identifier, ht] at h

theorem identifier_reads (ts : List Token) :
    ((r.identifier ts).recover "").Reads fun x ys => ∃ t : Token, t.Is .identifier x ∧ ys = [t] := by
  refine Reads.recover fun x hx => ?_
  obtain ⟨t, ht, hkept⟩ := identifier_eq_ok hx
  exact ⟨[t], ⟨t, ht, rfl⟩, hkept⟩

theorem terminator_reads (ts : List Token) : ((r.terminator ts).recover ()).Reads fun _ ys => ys = [] := by
  cases ts with
  | nil => exact fun _ => ⟨[], rfl, rfl⟩
  | cons t us =>
    simp only [terminator]
    split_ifs with hend hbrace
    · exact fun _ => ⟨[], rfl, kept_cons_terminator us hend⟩
    · exact fun _ => ⟨[], rfl, rfl⟩
    · exact Reads.of_faults (by simp [Parsed.pure, Parsed.recover])

end Reader

theorem skipTerminator_reads (ts : List Token) : (skipTerminator ts).Reads fun _ ys => ys = [] := by
  cases ts with
  | nil => exact .pure rfl
  | cons t us =>
    simp only [skipTerminator]
    split_ifs with hend
    · exact fun _ => ⟨[], rfl, kept_cons_terminator us hend⟩
    · exact .pure rfl

/-! ## Expressions -/

/-- No line end and no semicolon stands in an expression. -/
theorem Expr.Yields.kept_eq {e : Expr} {es : List Token} (h : e.Yields es) : kept es = es := by
  induction h with
  | name h => exact kept_cons [] (Token.isTerminator_of_kind (by simp [h.1]) (by simp [h.1]))
  | literal h _ => exact kept_cons [] (Token.isTerminator_of_kind (by simp [h]) (by simp [h]))
  | unary h _ ih => rw [kept_cons _ (Token.isTerminator_of_kind (by simp [h.1]) (by simp [h.1])), ih]
  | @binary _ _ _ t _ _ _ h _ ihl ihr =>
    have ht : t.isTerminator = false := Token.isTerminator_of_kind (by simp [h.1]) (by simp [h.1])
    rw [kept_append, kept_cons _ ht, ihl, ihr]

/-- A grafted link stands behind the tree it is hung into. -/
theorem Expr.Yields.graft (power : BinOp → Power) {e right : Expr} {op : BinOp} {t : Token} {es rs : List Token}
    (he : e.Yields es) (ht : t.Is .operator op.symbol) (hright : right.Yields rs) :
    (e.graft power op right).Yields (es ++ t :: rs) := by
  induction he with
  | name h => exact .binary (.name h) ht hright
  | literal h h' => exact .binary (.literal h h') ht hright
  | unary h h' _ => exact .binary (.unary h h') ht hright
  | binary hl h hr _ ih =>
    unfold Expr.graft
    split_ifs
    · rw [List.append_assoc]
      exact .binary hl h ih
    · exact .binary (.binary hl h hr) ht hright

/-- The tokens of a run of links. -/
inductive LinksYield : List (BinOp × Expr) → List Token → Prop
  | nil : LinksYield [] []
  | cons {op : BinOp} {e : Expr} {links : List (BinOp × Expr)} {t : Token} {es ls : List Token} :
    t.Is .operator op.symbol → e.Yields es → LinksYield links ls →
      LinksYield ((op, e) :: links) (t :: (es ++ ls))

theorem LinksYield.append {links links' : List (BinOp × Expr)} {ls ls' : List Token} (h : LinksYield links ls)
    (h' : LinksYield links' ls') : LinksYield (links ++ links') (ls ++ ls') := by
  induction h with
  | nil => exact h'
  | cons ht he _ ih =>
    rw [List.cons_append, List.cons_append, List.append_assoc]
    exact .cons ht he ih

theorem Expr.Yields.ofLinks (power : BinOp → Power) {links : List (BinOp × Expr)} {ls : List Token}
    (hlinks : LinksYield links ls) {e : Expr} {es : List Token} (he : e.Yields es) :
    (Expr.ofLinks power e links).Yields (es ++ ls) := by
  induction hlinks generalizing e es with
  | nil => simpa only [Expr.ofLinks, List.foldl_nil, List.append_nil] using he
  | cons ht hright _ ih =>
    have hnext := ih (he.graft power ht hright)
    simpa only [Expr.ofLinks, List.foldl_cons, List.append_assoc, List.cons_append] using hnext

theorem Token.is_of_binOp? {t : Token} {op : BinOp} (h : t.binOp? = some op) : t.Is .operator op.symbol := by
  unfold Token.binOp? at h
  split_ifs at h with hkind
  exact ⟨hkind, (BinOp.symbol_of_ofSymbol? h).symm⟩

namespace Reader

open Parsed

variable {r : Reader}

theorem primary_takes (ts : List Token) : ((r.primary ts).recover .absent).Takes Expr.Yields := by
  cases ts with
  | nil => exact Takes.of_faults (by simp [primary, Parsed.pure, Parsed.recover])
  | cons t us =>
    simp only [primary]
    split_ifs with hid hlit
    · exact fun _ => ⟨[t], .name ⟨hid, rfl⟩, rfl⟩
    · cases htext : Literal.ofText? t.text with
      | none => exact Takes.of_faults (by simp [Token.literal_of_none htext, Parsed.recover, Except.map])
      | some l =>
        rw [Token.literal_of_some htext]
        exact fun _ => ⟨[t], .literal hlit htext, rfl⟩
    · exact Takes.of_faults (by simp [Parsed.pure, Parsed.recover])

theorem operand_takes (ts : List Token) : (r.operand ts).Takes Expr.Yields := by
  induction ts with
  | nil => exact primary_takes []
  | cons t us ih =>
    rw [operand]
    split_ifs with hop
    · refine Takes.widen_cons (.map (ih.imp fun e es he => ?_))
      rw [if_neg (by simp [he.not_isAbsent])]
      exact .unary ⟨hop, rfl⟩ he
    · exact primary_takes (t :: us)

theorem links_takes (floor : Power) (ts : List Token) : (r.links floor ts).Takes LinksYield := by
  fun_induction r.links floor ts with
  | case1 => exact .pure .nil
  | case2 => exact .pure .nil
  | case3 t us op hop hfloor ih =>
    refine Takes.widen_cons ((operand_takes us).andThen fun e es vs hle he => .map ?_)
    exact (ih vs hle).imp fun more ms hmore => .cons (Token.is_of_binOp? hop) he hmore
  | case4 => exact .pure .nil

theorem expression_takes (floor : Power) (ts : List Token) : (r.expression floor ts).Takes Expr.Yields := by
  refine (operand_takes ts).andThen fun first es us hle hfirst => .map ?_
  exact (links_takes floor us).imp fun more ms hmore => hfirst.ofLinks r.grammar.power hmore

theorem expression_reads (floor : Power) (ts : List Token) : (r.expression floor ts).Reads Expr.Yields :=
  (expression_takes floor ts).reads fun _ _ hyields => hyields.kept_eq

end Reader

/-! ## Statements -/

theorem Grammar.form?_eq_some {g : Grammar} {t : Token} {form : Form} (h : g.form? t = some form) :
    (t.kind = .identifier ∧ t.text = "var" ∧ form = .opening .declaration) ∨
      (t.kind = .identifier ∧ form = .assignment t.text) ∨
      (t.kind = .keyword ∧ ∃ o, g.opening t.text = some o ∧ form = .opening o) := by
  unfold Grammar.form? at h
  split at h
  · rename_i hkind
    split_ifs at h with hvar
    · exact .inl ⟨hkind, hvar, (Option.some.inj h).symm⟩
    · exact .inr (.inl ⟨hkind, (Option.some.inj h).symm⟩)
  · rename_i hkind
    obtain ⟨o, ho, rfl⟩ := Option.map_eq_some_iff.mp h
    exact .inr (.inr ⟨hkind, o, ho, rfl⟩)
  · cases h

/-- A token that opens a statement is a name or a keyword. -/
theorem Grammar.isTerminator_of_form? {g : Grammar} {t : Token} {form : Form} (h : g.form? t = some form) :
    t.isTerminator = false := by
  rcases Grammar.form?_eq_some h with ⟨hkind, _⟩ | ⟨hkind, _⟩ | ⟨hkind, _⟩ <;>
    exact Token.isTerminator_of_kind (by simp [hkind]) (by simp [hkind])

theorem Branch.keyword_of_ofKeyword? {s : String} {b : Branch} (h : Branch.ofKeyword? s = some b) :
    b.keyword = s := by
  simpa using List.find?_some h

/-- The keyword of each statement. -/
theorem Grammar.standardOpening_eq_some {text : String} {o : Opening} (h : Grammar.standardOpening text = some o) :
    (text = "var" ∧ o = .declaration) ∨ (text = "if" ∧ o = .conditional) ∨
      (text = "switch" ∧ o = .selection) ∨ ∃ b : Branch, text = b.keyword ∧ o = .branch b := by
  unfold Grammar.standardOpening at h
  split_ifs at h with hvar hif hswitch
  · exact .inl ⟨hvar, (Option.some.inj h).symm⟩
  · exact .inr (.inl ⟨hif, (Option.some.inj h).symm⟩)
  · exact .inr (.inr (.inl ⟨hswitch, (Option.some.inj h).symm⟩))
  · obtain ⟨b, hb, rfl⟩ := Option.map_eq_some_iff.mp h
    exact .inr (.inr (.inr ⟨b, (Branch.keyword_of_ofKeyword? hb).symm, rfl⟩))

namespace Reader

open Parsed

variable {r : Reader}

theorem assignedValue_reads (target : String) (defines : Bool) (ts : List Token) :
    (r.assignedValue target defines ts).Reads fun s ys => ∃ e, s = .assign target defines e ∧ e.Yields ys := by
  refine (expression_reads .lowest ts).andThen fun e es us hle he => .map ?_
  refine (terminator_reads us).imp fun _ ys hys => ⟨e, rfl, ?_⟩
  rwa [hys, List.append_nil]

/-- The sign and the value of an assignment; the sign tells whether the target is a new variable. -/
theorem assignmentTo_reads (target : String) (declared : Bool) (ts : List Token) :
    (r.assignmentTo target declared ts).Reads fun s ys => ∃ (sign : Token) (es : List Token) (e : Expr),
      ys = sign :: es ∧ e.Yields es ∧ ((sign.text = ":=" ∧ s = .assign target true e) ∨
        (sign.text = "=" ∧ s = .assign target declared e)) := by
  simp only [assignmentTo]
  split_ifs with hdefine hassign
  · obtain ⟨sign, us, hs, hsign⟩ := nextIs_eq_true hdefine
    have hkept : kept ts = [sign] ++ kept (skipLineEnds ts).tail := by
      rw [kept_of_skipLineEnds hs (by rw [hsign]; decide), hs]; rfl
    refine Reads.widen _ [sign] hkept ((assignedValue_reads target true _).imp ?_)
    rintro s es ⟨e, rfl, he⟩
    exact ⟨sign, es, e, rfl, he, .inl ⟨hsign, rfl⟩⟩
  · obtain ⟨sign, us, hs, hsign⟩ := nextIs_eq_true hassign
    have hkept : kept ts = [sign] ++ kept (skipLineEnds ts).tail := by
      rw [kept_of_skipLineEnds hs (by rw [hsign]; decide), hs]; rfl
    refine Reads.widen _ [sign] hkept ((assignedValue_reads target declared _).imp ?_)
    rintro s es ⟨e, rfl, he⟩
    exact ⟨sign, es, e, rfl, he, .inr ⟨hsign, rfl⟩⟩
  · exact Reads.of_faults (by simp)

theorem declaration_reads {var : Token} (hvar : var.text = "var") (ts : List Token) :
    (r.assignmentOf true ts).Reads fun s ys => s.Yields (var :: ys) := by
  refine (identifier_reads ts).andThen ?_
  rintro target _ us hle ⟨x, hx, rfl⟩
  refine (assignmentTo_reads target true us).imp ?_
  rintro s _ ⟨sign, es, e, rfl, he, ⟨hsign, rfl⟩ | ⟨hsign, rfl⟩⟩
  · exact .declare hvar hx (.inr hsign) he
  · exact .declare hvar hx (.inl hsign) he

theorem assignment_reads {x : Token} {target : String} (hx : x.Is .identifier target) (ts : List Token) :
    (r.assignmentTo target false ts).Reads fun s ys => s.Yields (x :: ys) := by
  refine (assignmentTo_reads target false ts).imp ?_
  rintro s _ ⟨sign, es, e, rfl, he, ⟨hsign, rfl⟩ | ⟨hsign, rfl⟩⟩
  · exact .define hx hsign he
  · exact .assign hx hsign he

mutual

theorem block_reads (hr : r.grammar.opening = Grammar.standardOpening) :
    (ts : List Token) → (r.block ts).Reads Block.Yields
  | [] => by rw [block]; exact .pure .nil
  | t :: us => by
    rw [block]
    split_ifs with hend hclose
    · exact (block_reads hr us).widen_lineEnd hend
    · exact .pure .nil
    · split
      · exact Reads.of_faults (by simp)
      · rename_i form hform
        refine Reads.widen_cons (Grammar.isTerminator_of_form? hform) ?_
        refine (statementOf_reads hr hform us).andThen fun s ys vs hle hs => .map ?_
        exact (block_reads hr vs).imp fun ss ws hss => .cons hs hss
termination_by ts => 8 * ts.length
decreasing_by all_goals (simp only [List.length_cons]; omega)

theorem statementOf_reads (hr : r.grammar.opening = Grammar.standardOpening) {t : Token} {form : Form}
    (hform : r.grammar.form? t = some form) (ts : List Token) :
    (r.statementOf form ts).Reads fun s ys => s.Yields (t :: ys) := by
  rw [statementOf.eq_def]
  rcases Grammar.form?_eq_some hform with ⟨_, htext, rfl⟩ | ⟨hkind, rfl⟩ | ⟨_, o, ho, rfl⟩
  · exact declaration_reads htext ts
  · exact assignment_reads ⟨hkind, rfl⟩ ts
  · rw [hr] at ho
    rcases Grammar.standardOpening_eq_some ho with ⟨htext, rfl⟩ | ⟨htext, rfl⟩ | ⟨htext, rfl⟩ | ⟨b, htext, rfl⟩
    · exact declaration_reads htext ts
    · exact conditional_reads hr htext ts
    · exact selection_reads hr htext ts
    · refine Reads.map ((skipTerminator_reads ts).imp ?_)
      rintro _ _ rfl
      exact .branch htext
termination_by 8 * ts.length + 5
decreasing_by all_goals omega

theorem braces_reads (hr : r.grammar.opening = Grammar.standardOpening) (ts : List Token) :
    (r.braces ts).Reads Block.Braced := by
  rw [braces]
  refine (consume_reads openBrace (by decide) ts).andThen ?_
  rintro _ _ us hle ⟨opening, hopening, rfl⟩
  refine (block_reads hr us).andThen fun body bs vs hle' hbody => .map ?_
  refine (consume_reads closeBrace (by decide) vs).imp ?_
  rintro _ _ ⟨closing, hclosing, rfl⟩
  exact .mk hopening hbody hclosing
termination_by 8 * ts.length + 1
decreasing_by all_goals omega

theorem conditional_reads (hr : r.grammar.opening = Grammar.standardOpening) {t : Token} (ht : t.text = "if")
    (ts : List Token) : (r.conditional ts).Reads fun s ys => s.Yields (t :: ys) := by
  rw [conditional]
  refine (expression_reads .lowest ts).andThen fun c cs us hle hc => ?_
  refine (braces_reads hr us).andThen fun body bs vs hle' hbody => ?_
  refine (alternative_reads hr vs).andThen fun alternative as ws hle'' ha => .map ?_
  refine (skipTerminator_reads ws).imp ?_
  rintro _ _ rfl
  rw [List.append_nil]
  rcases ha with ⟨rfl, rfl⟩ | ⟨other, body', bs', rfl, rfl, hother, hbody'⟩
  · rw [List.append_nil]
    exact .cond ht hc hbody
  · exact .condElse ht hc hbody hother hbody'
termination_by 8 * ts.length + 4
decreasing_by all_goals omega

theorem alternative_reads (hr : r.grammar.opening = Grammar.standardOpening) :
    (ts : List Token) → (r.alternative ts).Reads fun alternative ys => (alternative = none ∧ ys = []) ∨
      ∃ (other : Token) (body : Block) (bs : List Token),
        alternative = some body ∧ ys = other :: bs ∧ other.text = "else" ∧ Block.Braced body bs
  | [] => by rw [alternative]; exact .pure (.inl ⟨rfl, rfl⟩)
  | t :: us => by
    rw [alternative]
    split_ifs with hend helse
    · exact (alternative_reads hr us).widen_lineEnd hend
    · have hkept : t.isTerminator = false :=
        Token.isTerminator_eq_false (by simpa using hend) (by rw [helse]; decide)
      refine Reads.widen_cons hkept (.map ?_)
      exact (braces_reads hr us).imp fun body bs hbody => .inr ⟨t, body, bs, rfl, rfl, helse, hbody⟩
    · exact .pure (.inl ⟨rfl, rfl⟩)
termination_by ts => 8 * ts.length + 2
decreasing_by all_goals (simp only [List.length_cons]; omega)

theorem selection_reads (hr : r.grammar.opening = Grammar.standardOpening) {t : Token} (ht : t.text = "switch")
    (ts : List Token) : (r.selection ts).Reads fun s ys => s.Yields (t :: ys) := by
  rw [selection]
  have hsubject : (if nextIs openBrace ts then
        (⟨.absent, skipLineEnds ts, [], skipLineEnds_suffix ts⟩ : Parsed Expr ts)
      else (r.expression .lowest (skipLineEnds ts)).widen (skipLineEnds_suffix ts)).Reads
        fun e es => (e = .absent ∧ es = []) ∨ e.Yields es := by
    split_ifs
    · exact fun _ => ⟨[], .inl ⟨rfl, rfl⟩, (kept_skipLineEnds ts).symm⟩
    · refine Reads.widen _ [] (kept_skipLineEnds ts).symm ?_
      exact (expression_reads .lowest _).imp fun e es he => .inr he
  refine hsubject.andThen fun e es us hle he => ?_
  refine (consume_reads openBrace (by decide) us).andThen ?_
  rintro _ _ vs hle' ⟨opening, hopening, rfl⟩
  refine (arms_reads hr vs).andThen fun arms as ws hle'' harms => ?_
  refine (consume_reads closeBrace (by decide) ws).andThen ?_
  rintro _ _ xs hle''' ⟨closing, hclosing, rfl⟩
  refine Reads.map ((skipTerminator_reads xs).imp ?_)
  rintro _ _ rfl
  rw [List.append_nil]
  rcases he with ⟨rfl, rfl⟩ | he
  · exact .tagless ht hopening harms hclosing
  · exact .tagged ht he hopening harms hclosing
termination_by 8 * ts.length + 4
decreasing_by all_goals omega

theorem arms_reads (hr : r.grammar.opening = Grammar.standardOpening) :
    (ts : List Token) → (r.arms ts).Reads Arm.Yield
  | [] => by rw [arms]; exact .pure .nil
  | t :: us => by
    rw [arms]
    split_ifs with hend harm
    · exact (arms_reads hr us).widen_lineEnd hend
    · have hkept : t.isTerminator = false := by
        refine Token.isTerminator_eq_false (by simpa using hend) ?_
        rcases harm with harm | harm <;> rw [harm] <;> decide
      refine Reads.widen_cons hkept ?_
      refine (armOf_reads hr (t.text == "case") us).andThen fun arm ys vs hle hys => .map ?_
      refine (arms_reads hr vs).imp fun more ms hmore => ?_
      rcases hys with ⟨hcase, gs, colon, bs, rfl, hg, hcolon, hb⟩ | ⟨hcase, habsent, colon, bs, rfl, hcolon, hb⟩
      · have htext : t.text = "case" := by simpa using hcase
        simpa using Arm.Yield.guarded htext hg hcolon hb hmore
      · have htext : t.text = "default" := harm.resolve_left (by simpa using hcase)
        obtain ⟨guard, body⟩ := arm
        obtain rfl : guard = .absent := habsent
        simpa using Arm.Yield.default htext hcolon hb hmore
    · exact .pure .nil
termination_by ts => 8 * ts.length + 3
decreasing_by all_goals (simp only [List.length_cons]; omega)

theorem armOf_reads (hr : r.grammar.opening = Grammar.standardOpening) (guarded : Bool) (ts : List Token) :
    (r.armOf guarded ts).Reads fun arm ys =>
      (guarded = true ∧ ∃ (gs : List Token) (colon : Token) (bs : List Token), ys = gs ++ colon :: bs ∧
        arm.guard.Yields gs ∧ colon.text = ":" ∧ Block.Yields arm.body bs) ∨
      (guarded = false ∧ arm.guard = .absent ∧ ∃ (colon : Token) (bs : List Token), ys = colon :: bs ∧
        colon.text = ":" ∧ Block.Yields arm.body bs) := by
  rw [armOf]
  have hguard : (if guarded then r.expression .lowest ts else .pure .absent).Reads
      fun g gs => (guarded = true ∧ g.Yields gs) ∨ (guarded = false ∧ g = .absent ∧ gs = []) := by
    split_ifs with h
    · exact (expression_reads .lowest ts).imp fun g gs hg => .inl ⟨h, hg⟩
    · exact .pure (.inr ⟨by simpa using h, rfl, rfl⟩)
  refine hguard.andThen fun g gs us hle hg => ?_
  refine (consume_reads ":" (by decide) us).andThen ?_
  rintro _ _ vs hle' ⟨colon, hcolon, rfl⟩
  refine Reads.map ((block_reads hr vs).imp fun body bs hbody => ?_)
  rcases hg with ⟨h, hg⟩ | ⟨h, rfl, rfl⟩
  · exact .inl ⟨h, gs, colon, bs, rfl, hg, hcolon, hbody⟩
  · exact .inr ⟨h, rfl, colon, bs, rfl, hcolon, hbody⟩
termination_by 8 * ts.length + 1
decreasing_by all_goals omega

end

/-! ## Programs -/

theorem procedureOf_reads (hr : r.grammar.opening = Grammar.standardOpening) {t : Token} (ht : t.text = "func")
    (ts : List Token) :
    (r.procedureOf ts).Reads fun p ys => ∃ q : Procedure, p = some q ∧ q.Yields (t :: ys) := by
  have hname : (((r.identifier ts).map fun name => name.map some).recover none).Reads
      fun x ys => ∃ (name : Token) (text : String), name.Is .identifier text ∧ x = some text ∧ ys = [name] := by
    refine Reads.recover fun x hx => ?_
    cases hvalue : (r.identifier ts).value with
    | error f => rw [value_map, hvalue] at hx; cases hx
    | ok text =>
      rw [value_map, hvalue] at hx
      obtain ⟨name, hname, hkept⟩ := identifier_eq_ok hvalue
      exact ⟨[name], ⟨name, text, hname, (Except.ok.inj hx).symm, rfl⟩, hkept⟩
  refine hname.andThen ?_
  rintro _ _ us hle ⟨name, text, hname', rfl, rfl⟩
  refine (consume_reads "(" (by decide) us).andThen ?_
  rintro _ _ vs hle' ⟨left, hleft, rfl⟩
  refine (consume_reads ")" (by decide) vs).andThen ?_
  rintro _ _ ws hle'' ⟨right, hright, rfl⟩
  refine Reads.map ((braces_reads hr ws).imp fun body bs hbody => ?_)
  exact ⟨⟨text, body⟩, rfl, .mk ht hname' hleft hright hbody⟩

theorem procedures_reads (hr : r.grammar.opening = Grammar.standardOpening) (ts : List Token) :
    (r.procedures ts).Reads Procedure.Yield := by
  fun_induction r.procedures ts with
  | case1 => exact .pure .nil
  | case2 t us hend ih => exact ih.widen_lineEnd hend
  | case3 t us hend ih =>
    unfold procedureBy
    split_ifs with hfunc
    · have hkept : t.isTerminator = false :=
        Token.isTerminator_eq_false (by simpa using hend) (by rw [hfunc]; decide)
      refine Reads.widen_cons hkept ((procedureOf_reads hr hfunc us).andThen ?_)
      rintro _ ys vs hle ⟨q, rfl, hq⟩
      exact Reads.map ((ih vs hle).imp fun qs zs hqs => .cons hq hqs)
    · exact Reads.of_faults (by simp)

/-- Procedures are read up to the end of the tokens, whatever is wrong with them. -/
theorem rest_procedures (ts : List Token) : (r.procedures ts).rest = [] := by
  fun_induction r.procedures ts with
  | case1 => rfl
  | case2 t us hend ih => exact ih
  | case3 t us hend ih => exact ih _ (Parsed.suffix _).length_le

theorem expect_eq_ok {text : String} {ts : List Token} {t : Token} (h : (r.expect text ts).value = .ok t) :
    t.text = text ∧ skipLineEnds ts = t :: (r.expect text ts).rest := by
  simp only [expect] at h ⊢
  cases hs : skipLineEnds ts with
  | nil => simp [hs] at h
  | cons t' us =>
    rw [hs] at h
    by_cases ht : t'.text = text
    · simp only [ht, if_true, Except.ok.injEq] at h
      subst h
      exact ⟨ht, rfl⟩
    · simp [ht] at h

/-- A package clause without faults is made of two tokens; its name is the text of the second one, unless that is
empty. -/
theorem packageClause_eq_of_faults_eq_nil {ts : List Token} (hnone : (r.packageClause ts).faults = []) :
    ∃ (t name : Token) (x : String), t.text = "package" ∧ name.Is .identifier x ∧
      (r.packageClause ts).value = (if x = "" then none else some x) ∧
      kept ts = t :: name :: kept (r.packageClause ts).rest := by
  cases hkeyword : (r.expect "package" ts).value with
  | error f => simp [packageClause, hkeyword] at hnone
  | ok t =>
    obtain ⟨ht, hs⟩ := expect_eq_ok hkeyword
    simp only [packageClause, hkeyword, List.append_eq_nil_iff] at hnone ⊢
    obtain ⟨_, ⟨name, hname, rfl⟩, hkept⟩ := identifier_reads _ hnone.1
    obtain ⟨_, rfl, hkept'⟩ := terminator_reads _ hnone.2
    refine ⟨t, name, _, ht, hname, rfl, ?_⟩
    rw [rest_recover] at hkept hkept'
    rw [kept_of_skipLineEnds hs (by rw [ht]; decide), hkept, hkept']
    rfl

theorem packageClause_reads (ts : List Token) :
    (r.packageClause ts).Reads fun x ys => ∃ t name : Token, t.text = "package" ∧ ys = [t, name] ∧
      ∀ text, x = some text → name.Is .identifier text := by
  intro hnone
  obtain ⟨t, name, x, ht, hname, hvalue, hkept⟩ := packageClause_eq_of_faults_eq_nil hnone
  refine ⟨[t, name], ⟨t, name, ht, rfl, ?_⟩, hkept⟩
  intro text htext
  rw [hvalue] at htext
  split_ifs at htext
  rwa [← Option.some.inj htext]

end Reader

/-- A program that was read to its end without faults is made of all the tokens that were read, in their order, but
for line ends and semicolons; nothing is absent in it where the language asks for an expression. -/
theorem Reading.yields_kept (ts : List Token) (hdone : (Reading.ofTokens ts).completed = true)
    (hnone : (Reading.ofTokens ts).program.faults = []) :
    (Reading.ofTokens ts).program.Yields (kept ts) ∧ (Reading.ofTokens ts).program.isWhole = true := by
  suffices h : (Reading.ofTokens ts).program.Yields (kept ts) from ⟨h, h.isWhole⟩
  cases hclause : ((Reader.standard ts).packageClause ts).value with
  | none => simp [Reading.ofTokens, hclause] at hdone
  | some x =>
    simp only [Reading.ofTokens, hclause, List.append_eq_nil_iff] at hnone ⊢
    obtain ⟨_, ⟨t, name, ht, rfl, hname⟩, hkept⟩ := Reader.packageClause_reads ts hnone.1
    obtain ⟨ps, hps, hkept'⟩ := Reader.procedures_reads rfl _ hnone.2
    rw [Reader.rest_procedures] at hkept'
    rw [hkept, hkept']
    simpa [kept] using Program.Yields.mk ht (hname x hclause) hps

/-- A token that stands nowhere in particular. -/
def Token.bare (kind : Token.Kind) (text : String) : Token :=
  ⟨kind, text, ⟨"", 0, 0⟩⟩

/-- A switch with nothing but a default arm, and an `else` on a line of its own. -/
def nestedTokens : List Token :=
  [.bare .keyword "package", .bare .identifier "p", .bare .delimiter ";", .bare .keyword "func",
    .bare .identifier "f", .bare .delimiter "(", .bare .delimiter ")", .bare .delimiter openBrace,
    .bare .lineEnd "\n", .bare .keyword "var", .bare .identifier "a", .bare .operator ":=",
    .bare .operator "-", .bare .literal "1", .bare .operator "*", .bare .identifier "b", .bare .lineEnd "\n",
    .bare .keyword "if", .bare .identifier "a", .bare .delimiter openBrace, .bare .keyword "switch",
    .bare .delimiter openBrace, .bare .keyword "default", .bare .delimiter ":", .bare .delimiter closeBrace,
    .bare .delimiter ";", .bare .delimiter closeBrace, .bare .lineEnd "\n", .bare .keyword "else",
    .bare .delimiter openBrace, .bare .keyword "break", .bare .delimiter closeBrace, .bare .delimiter closeBrace]

theorem Reading.yields_kept_nested :
    (Reading.ofTokens nestedTokens).completed = true ∧ (Reading.ofTokens nestedTokens).program.faults = [] ∧
      (Reading.ofTokens nestedTokens).program.Yields (kept nestedTokens) ∧
      (Reading.ofTokens nestedTokens).program.isWhole = true :=
  have hdone : (Reading.ofTokens nestedTokens).completed = true := by decide +kernel
  have hnone : (Reading.ofTokens nestedTokens).program.faults = [] := by decide +kernel
  ⟨hdone, hnone, Reading.yields_kept nestedTokens hdone hnone⟩

end AddressLines
