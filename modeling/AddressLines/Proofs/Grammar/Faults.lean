import AddressLines.Grammar.Program
import AddressLines.Proofs.Grammar.Sound
import AddressLines.Proofs.Tree.Names
import Mathlib.Tactic.SplitIfs

/-!
# Where the faults of reading come from

Every fault that reading records is found at a place of the tokens (`Reader.FaultAt`): something else was expected
there, or an identifier was, or a literal has no value. The places of the faults of one reading follow each other from
the front of the tokens to their end (`Reader.Located`). And every name in what is read is the text of an identifier,
or empty where an identifier is missing.

Both are carried through all readers by one contract on their outcomes (`Parsed.Sourced`).
-/

namespace AddressLines

/-! ## Names and places -/

/-- The text of an identifier out of `all`, or the empty name that stands for one that is missing. -/
def Spelled (all : List Token) (x : String) : Prop :=
  x = "" ∨ ∃ t ∈ all, t.kind = .identifier ∧ t.text = x

def AreSpelled (all : List Token) (xs : List String) : Prop :=
  ∀ x ∈ xs, Spelled all x

section AreSpelled

variable {all : List Token} {x : String} {xs ys : List String}

@[simp] theorem areSpelled_nil : AreSpelled all [] := by simp [AreSpelled]

@[simp] theorem areSpelled_cons : AreSpelled all (x :: xs) ↔ Spelled all x ∧ AreSpelled all xs := List.forall_mem_cons

@[simp] theorem areSpelled_append : AreSpelled all (xs ++ ys) ↔ AreSpelled all xs ∧ AreSpelled all ys :=
  List.forall_mem_append

theorem spelled_of_suffix {t : Token} {us : List Token} (hkind : t.kind = .identifier) (h : t :: us <:+ all) :
    Spelled all t.text :=
  .inr ⟨t, h.subset (List.mem_cons_self ..), hkind, rfl⟩

end AreSpelled

namespace Reader

/-- What a message may say was expected. -/
def expectations : List String :=
  ["package", "Identifier", "func", "(", ")", openBrace, closeBrace, ":", "Statement", "Expression", "':=' or '='",
    "';' or a new line"]

/-- A fault that reading may record when it has come to these tokens. -/
inductive FaultAt (r : Reader) : List Token → Fault → Prop
  | unexpected {expected : String} {us : List Token} :
    expected ∈ expectations → FaultAt r us (r.unexpected expected us)
  | wrongKind {t : Token} {us : List Token} :
    FaultAt r (t :: us) ⟨.wrongKind "Identifier" (Fault.quote t.text) t.kind.name, some t.start⟩
  | badLiteral {t : Token} {us : List Token} :
    t.kind = .literal → Literal.ofText? t.text = none → FaultAt r (t :: us) ⟨.badLiteral t.text, some t.start⟩

/-- Reading from the first list up to the second records these faults, each where it has come to. -/
inductive Located (r : Reader) : List Token → List Token → List Fault → Prop
  | nil {ts rest : List Token} : rest <:+ ts → Located r ts rest []
  | cons {ts us rest : List Token} {f : Fault} {faults : List Fault} :
    us <:+ ts → r.FaultAt us f → Located r us rest faults → Located r ts rest (f :: faults)

variable {r : Reader} {ts us rest : List Token} {f : Fault} {faults faults' : List Fault}

theorem Located.suffix (h : r.Located ts rest faults) : rest <:+ ts := by
  induction h with
  | nil hrest => exact hrest
  | cons hus _ _ ih => exact ih.trans hus

theorem Located.of_suffix (hus : us <:+ ts) (h : r.Located us rest faults) : r.Located ts rest faults := by
  cases h with
  | nil hrest => exact .nil (hrest.trans hus)
  | cons hvs hf hrest => exact .cons (hvs.trans hus) hf hrest

theorem Located.append (h : r.Located ts us faults) (h' : r.Located us rest faults') :
    r.Located ts rest (faults ++ faults') := by
  induction h with
  | nil hus => exact h'.of_suffix hus
  | cons hvs hf _ ih => exact .cons hvs hf (ih h')

theorem Located.mem (h : r.Located ts rest faults) (hf : f ∈ faults) : ∃ us, us <:+ ts ∧ r.FaultAt us f := by
  induction h with
  | nil => simp at hf
  | cons hus hfault _ ih =>
    rcases List.mem_cons.mp hf with rfl | hf
    · exact ⟨_, hus, hfault⟩
    · obtain ⟨vs, hvs, hat⟩ := ih hf
      exact ⟨vs, hvs.trans hus, hat⟩

end Reader

namespace Parsed

variable {α β : Type} {r : Reader} {V : α → Prop} {W : β → Prop} {start ts us : List Token}

/-- From `start` on, something with a property was read, with faults on the way. -/
structure Sourced (r : Reader) (V : α → Prop) (start : List Token) (p : Parsed α ts) : Prop where
  value : V p.value
  faults : r.Located start p.rest p.faults

theorem Sourced.pure {a : α} (ha : V a) (h : ts <:+ start) : Sourced r V start (pure a : Parsed α ts) :=
  ⟨ha, .nil h⟩

theorem Sourced.of_suffix {p : Parsed α ts} (hus : us <:+ start) (h : Sourced r V us p) : Sourced r V start p :=
  ⟨h.value, h.faults.of_suffix hus⟩

theorem Sourced.map {p : Parsed α ts} {g : α → β} (h : Sourced r V start p) (hg : ∀ a, V a → W (g a)) :
    Sourced r W start (p.map g) :=
  ⟨hg _ h.value, h.faults⟩

theorem Sourced.widen {p : Parsed α us} (hus : us <:+ ts) (h : Sourced r V start p) : Sourced r V start (p.widen hus) :=
  ⟨h.value, h.faults⟩

/-- What is skipped before reading has no faults. -/
theorem Sourced.behind {p : Parsed α us} (hus : us <:+ ts) (h : Sourced r V us p) : Sourced r V ts (p.widen hus) :=
  .widen hus (h.of_suffix hus)

theorem Sourced.report {p : Parsed α ts} {f : Fault} (hf : r.FaultAt start f) (h : Sourced r V start p) :
    Sourced r V start (p.report f) :=
  ⟨h.value, .cons List.suffix_rfl hf h.faults⟩

theorem Sourced.andThen {p : Parsed α ts} {g : α → (us : List Token) → us.length ≤ ts.length → Parsed β us}
    (h : Sourced r V start p)
    (hg : ∀ a us (hle : us.length ≤ ts.length), us <:+ start → V a → Sourced r W us (g a us hle)) :
    Sourced r W start (p.andThen g) :=
  have hnext := hg p.value p.rest p.suffix.length_le h.faults.suffix h.value
  ⟨hnext.value, h.faults.append hnext.faults⟩

/-- From `start` on, either something with a property was read, or there is a fault at some place before the rest. -/
structure Attempted (r : Reader) (V : α → Prop) (start : List Token) (p : Parsed (Except Fault α) ts) : Prop where
  faults : p.faults = []
  ok : ∀ a, p.value = .ok a → V a ∧ p.rest <:+ start
  error : ∀ f, p.value = .error f → ∃ us, us <:+ start ∧ p.rest <:+ us ∧ r.FaultAt us f

theorem Attempted.fail {f : Fault} (hf : r.FaultAt ts f) : Attempted r V ts (Parsed.pure (.error f) : Parsed _ ts) where
  faults := rfl
  ok a h := by simp at h
  error g h := by
    obtain rfl : f = g := by simpa using h
    exact ⟨ts, List.suffix_rfl, List.suffix_rfl, hf⟩

theorem Attempted.succeed {p : Parsed (Except Fault α) ts} {a : α} (hvalue : p.value = .ok a) (hfaults : p.faults = [])
    (ha : V a) (hrest : p.rest <:+ start) : Attempted r V start p where
  faults := hfaults
  ok b hb := by
    obtain rfl : a = b := by simpa [hvalue] using hb
    exact ⟨ha, hrest⟩
  error f hf := by simp [hvalue] at hf

theorem Attempted.map {p : Parsed (Except Fault α) ts} {g : α → β} (h : Attempted r V start p)
    (hg : ∀ a, V a → W (g a)) : Attempted r W start (p.map fun e => e.map g) where
  faults := h.faults
  ok b hb := by
    cases hvalue : p.value with
    | error f => simp [hvalue, Except.map] at hb
    | ok a =>
      obtain rfl : g a = b := by simpa [hvalue, Except.map] using hb
      obtain ⟨ha, hrest⟩ := h.ok a hvalue
      exact ⟨hg a ha, hrest⟩
  error f hf := by
    cases hvalue : p.value with
    | error f' =>
      obtain rfl : f' = f := by simpa [hvalue, Except.map] using hf
      exact h.error f' hvalue
    | ok a => simp [hvalue, Except.map] at hf

theorem Attempted.recover {p : Parsed (Except Fault α) ts} {fallback : α} (h : Attempted r V start p)
    (hV : V fallback) : Sourced r V start (p.recover fallback) := by
  cases hvalue : p.value with
  | ok a =>
    obtain ⟨ha, hrest⟩ := h.ok a hvalue
    have hrecover : p.recover fallback = ⟨a, p.rest, p.faults, p.suffix⟩ := by rw [Parsed.recover, hvalue]
    rw [hrecover, h.faults]
    exact ⟨ha, .nil hrest⟩
  | error f =>
    obtain ⟨us, hus, hrest, hf⟩ := h.error f hvalue
    have hrecover : p.recover fallback = ⟨fallback, p.rest, p.faults ++ [f], p.suffix⟩ := by
      rw [Parsed.recover, hvalue]
    rw [hrecover, h.faults]
    exact ⟨hV, .cons hus hf (.nil hrest)⟩

end Parsed

namespace Reader

open Parsed

variable {r : Reader} {all ts us : List Token}

/-! ## Single tokens -/

theorem expect_attempted (r : Reader) {text : String} (h : text ∈ expectations) (ts : List Token) :
    Attempted r (fun _ => True) ts (r.expect text ts) where
  faults := rfl
  ok t ht := ⟨trivial, tail_skipLineEnds_suffix ts⟩
  error f hf := by
    refine ⟨skipLineEnds ts, skipLineEnds_suffix ts, List.tail_suffix _, ?_⟩
    simp only [expect] at hf
    split at hf
    · rename_i hnil
      obtain rfl : r.unexpected text [] = f := by simpa using hf
      rw [hnil]
      exact .unexpected h
    · rename_i t us hcons
      split_ifs at hf
      obtain rfl : r.unexpected text (t :: us) = f := by simpa using hf
      rw [hcons]
      exact .unexpected h

theorem consume_sourced (r : Reader) {text : String} (h : text ∈ expectations) (ts : List Token) :
    Sourced r (fun _ => True) ts (r.consume text ts) :=
  ((r.expect_attempted h ts).map fun _ _ => trivial).recover trivial

theorem identifier_attempted (r : Reader) (h : ts <:+ all) : Attempted r (Spelled all) ts (r.identifier ts) := by
  cases ts with
  | nil => exact .fail (.unexpected (by decide))
  | cons t us =>
    rw [identifier]
    split_ifs with hkind
    · exact .succeed rfl rfl (spelled_of_suffix hkind h) (List.suffix_cons t us)
    · exact .fail .wrongKind

theorem terminator_attempted (r : Reader) (ts : List Token) :
    Attempted r (fun _ => True) ts (r.terminator ts) := by
  cases ts with
  | nil => exact .succeed rfl rfl trivial List.suffix_rfl
  | cons t us =>
    rw [terminator]
    split_ifs
    · exact .succeed rfl rfl trivial (List.suffix_cons t us)
    · exact .succeed rfl rfl trivial List.suffix_rfl
    · exact .fail (.unexpected (by decide))

theorem skipTerminator_sourced (r : Reader) (ts : List Token) :
    Sourced r (fun _ => True) ts (skipTerminator ts) := by
  cases ts with
  | nil => exact .pure trivial List.suffix_rfl
  | cons t us =>
    rw [skipTerminator]
    split_ifs
    · exact ⟨trivial, .nil (List.suffix_cons t us)⟩
    · exact .pure trivial List.suffix_rfl

/-! ## Expressions -/

theorem areSpelled_graft {power : BinOp → Power} {e right : Expr} {op : BinOp} (he : AreSpelled all e.names)
    (hright : AreSpelled all right.names) : AreSpelled all (e.graft power op right).names := by
  fun_induction Expr.graft power e op right with
  | case1 op right l o r hlt ih =>
    simp only [Expr.names, areSpelled_append] at he ⊢
    exact ⟨he.1, ih he.2 hright⟩
  | case2 op right l o r hlt =>
    rw [Expr.names, areSpelled_append]
    exact ⟨he, hright⟩
  | case3 op right e hbinary =>
    rw [Expr.names, areSpelled_append]
    exact ⟨he, hright⟩

theorem areSpelled_ofLinks {power : BinOp → Power} {first : Expr} {links : List (BinOp × Expr)}
    (hfirst : AreSpelled all first.names) (hlinks : ∀ link ∈ links, AreSpelled all link.2.names) :
    AreSpelled all (Expr.ofLinks power first links).names := by
  induction links generalizing first with
  | nil => exact hfirst
  | cons link links ih =>
    obtain ⟨hlink, hlinks⟩ := List.forall_mem_cons.mp hlinks
    exact ih (areSpelled_graft hfirst hlink) hlinks

theorem primary_attempted (r : Reader) (h : ts <:+ all) :
    Attempted r (fun e => AreSpelled all e.names) ts (r.primary ts) := by
  cases ts with
  | nil => exact .fail (.unexpected (by decide))
  | cons t us =>
    rw [primary]
    split_ifs with hname hliteral
    · exact .succeed rfl rfl (by simpa [Expr.names] using spelled_of_suffix hname h) (List.suffix_cons t us)
    · cases hvalue : Literal.ofText? t.text with
      | some l =>
        rw [Token.literal_of_some hvalue]
        exact .succeed rfl rfl (by simp [Expr.names]) (List.suffix_cons t us)
      | none =>
        rw [Token.literal_of_none hvalue]
        refine ⟨rfl, fun a ha => by simp [Except.map] at ha, fun f hf => ?_⟩
        obtain rfl : ⟨.badLiteral t.text, some t.start⟩ = f := by simpa [Except.map] using hf
        exact ⟨t :: us, List.suffix_rfl, List.suffix_cons t us, .badLiteral hliteral hvalue⟩
    · exact .fail (.unexpected (by decide))

theorem operand_sourced (r : Reader) (h : ts <:+ all) :
    Sourced r (fun e => AreSpelled all e.names) ts (r.operand ts) := by
  induction ts with
  | nil => exact (r.primary_attempted h).recover (by simp [Expr.names])
  | cons t us ih =>
    rw [operand]
    split_ifs with hoperator
    · have hus : us <:+ t :: us := List.suffix_cons t us
      refine .behind hus ((ih (hus.trans h)).map fun e he => ?_)
      split_ifs
      · simp [Expr.names]
      · exact he
    · exact (r.primary_attempted h).recover (by simp [Expr.names])

theorem links_sourced (r : Reader) (floor : Power) {ts : List Token} (h : ts <:+ all) :
    Sourced r (fun links => ∀ link ∈ links, AreSpelled all link.2.names) ts (r.links floor ts) := by
  cases ts with
  | nil =>
    rw [links]
    exact .pure (by simp) List.suffix_rfl
  | cons t us =>
    have hus : us <:+ t :: us := List.suffix_cons t us
    rw [links]
    split
    · exact .pure (by simp) List.suffix_rfl
    · split_ifs
      · refine .behind hus ((r.operand_sourced (hus.trans h)).andThen fun e vs hle hvs he => ?_)
        have hlt : vs.length < (t :: us).length := Nat.lt_succ_of_le hle
        refine (links_sourced r floor ((hvs.trans hus).trans h)).map fun more hmore => ?_
        exact List.forall_mem_cons.mpr ⟨he, hmore⟩
      · exact .pure (by simp) List.suffix_rfl
termination_by ts.length

theorem expression_sourced (r : Reader) (floor : Power) (h : ts <:+ all) :
    Sourced r (fun e => AreSpelled all e.names) ts (r.expression floor ts) := by
  refine (r.operand_sourced h).andThen fun first us _ hus hfirst => ?_
  exact (r.links_sourced floor (hus.trans h)).map fun more hmore => areSpelled_ofLinks hfirst hmore

/-! ## Statements -/

theorem assignedValue_sourced (r : Reader) {target : String} (htarget : Spelled all target) (defines : Bool)
    (h : ts <:+ all) : Sourced r (fun s => AreSpelled all s.names) ts (r.assignedValue target defines ts) := by
  refine (r.expression_sourced .lowest h).andThen fun e us _ hus he => ?_
  refine ((r.terminator_attempted us).recover trivial).map fun _ _ => ?_
  simpa [Stmt.names] using ⟨htarget, he⟩

theorem assignmentTo_sourced (r : Reader) {target : String} (htarget : Spelled all target) (declared : Bool)
    (h : ts <:+ all) : Sourced r (fun s => AreSpelled all s.names) ts (r.assignmentTo target declared ts) := by
  have htail := tail_skipLineEnds_suffix ts
  simp only [assignmentTo]
  split_ifs
  · exact .behind htail (r.assignedValue_sourced htarget true (htail.trans h))
  · exact .behind htail (r.assignedValue_sourced htarget declared (htail.trans h))
  · refine ⟨by simpa [Stmt.names, Expr.names] using htarget, ?_⟩
    exact .cons (skipLineEnds_suffix ts) (.unexpected (by decide)) (.nil List.suffix_rfl)

theorem assignmentOf_sourced (r : Reader) (declared : Bool) (h : ts <:+ all) :
    Sourced r (fun s => AreSpelled all s.names) ts (r.assignmentOf declared ts) := by
  refine ((r.identifier_attempted h).recover (.inl rfl)).andThen fun target us _ hus htarget => ?_
  exact r.assignmentTo_sourced htarget declared (hus.trans h)

/-- The target of an assignment that a token opens is the token itself. -/
theorem spelled_of_form? {g : Grammar} {t : Token} {form : Form} (hform : g.form? t = some form) (h : t :: us <:+ all)
    {x : String} (hx : form = .assignment x) : Spelled all x := by
  subst hx
  rcases Grammar.form?_eq_some hform with ⟨-, -, hopening⟩ | ⟨hkind, hassignment⟩ | ⟨-, o, -, hopening⟩
  · cases hopening
  · obtain rfl : x = t.text := by simpa using hassignment
    exact spelled_of_suffix hkind h
  · cases hopening

mutual

theorem block_sourced (r : Reader) {ts : List Token} (h : ts <:+ all) :
    Sourced r (fun ss => AreSpelled all (Block.names ss)) ts (r.block ts) := by
  cases ts with
  | nil =>
    rw [block]
    exact .pure (by simp [Block.names]) List.suffix_rfl
  | cons t us =>
    have hus : us <:+ t :: us := List.suffix_cons t us
    rw [block]
    split_ifs
    · exact .behind hus (r.block_sourced (hus.trans h))
    · exact .pure (by simp [Block.names]) List.suffix_rfl
    · split
      · exact .widen _ (.report (.unexpected (by decide)) ((r.block_sourced (hus.trans h)).of_suffix hus))
      · rename_i form hform
        have hstmt := r.statementOf_sourced (fun x hx => spelled_of_form? hform h hx) (hus.trans h)
        refine .behind hus (hstmt.andThen fun s vs hle hvs hs => ?_)
        have hlt : vs.length < (t :: us).length := Nat.lt_succ_of_le hle
        refine (r.block_sourced ((hvs.trans hus).trans h)).map fun ss hss => ?_
        simpa [Block.names] using ⟨hs, hss⟩
termination_by 8 * ts.length

theorem statementOf_sourced (r : Reader) {form : Form} {ts : List Token}
    (hform : ∀ x, form = .assignment x → Spelled all x) (h : ts <:+ all) :
    Sourced r (fun s => AreSpelled all s.names) ts (r.statementOf form ts) := by
  rw [statementOf.eq_def]
  cases form with
  | assignment target => exact r.assignmentTo_sourced (hform target rfl) false h
  | opening o =>
    cases o with
    | declaration => exact r.assignmentOf_sourced true h
    | conditional => exact r.conditional_sourced h
    | selection => exact r.selection_sourced h
    | branch b => exact (r.skipTerminator_sourced ts).map fun _ _ => by simp [Stmt.names]
termination_by 8 * ts.length + 5

theorem braces_sourced (r : Reader) {ts : List Token} (h : ts <:+ all) :
    Sourced r (fun ss => AreSpelled all (Block.names ss)) ts (r.braces ts) := by
  rw [braces]
  refine (r.consume_sourced (by decide) ts).andThen fun _ us hle hus _ => ?_
  refine (r.block_sourced (hus.trans h)).andThen fun body vs _ hvs hbody => ?_
  exact (r.consume_sourced (by decide) vs).map fun _ _ => hbody
termination_by 8 * ts.length + 1

theorem conditional_sourced (r : Reader) {ts : List Token} (h : ts <:+ all) :
    Sourced r (fun s => AreSpelled all s.names) ts (r.conditional ts) := by
  rw [conditional]
  refine (r.expression_sourced .lowest h).andThen fun condition us hle hus hcondition => ?_
  refine (r.braces_sourced (hus.trans h)).andThen fun body vs hle' hvs hbody => ?_
  refine (r.alternative_sourced ((hvs.trans hus).trans h)).andThen fun alternative ws _ hws halternative => ?_
  refine (r.skipTerminator_sourced ws).map fun _ _ => ?_
  cases alternative with
  | none => simpa [Stmt.names] using ⟨hcondition, hbody⟩
  | some body' => simpa [Stmt.names] using ⟨hcondition, hbody, halternative body' rfl⟩
termination_by 8 * ts.length + 4

theorem alternative_sourced (r : Reader) {ts : List Token} (h : ts <:+ all) :
    Sourced r (fun o => ∀ body, o = some body → AreSpelled all (Block.names body)) ts (r.alternative ts) := by
  cases ts with
  | nil =>
    rw [alternative]
    exact .pure (by simp) List.suffix_rfl
  | cons t us =>
    have hus : us <:+ t :: us := List.suffix_cons t us
    rw [alternative]
    split_ifs
    · exact .behind hus (r.alternative_sourced (hus.trans h))
    · refine .behind hus ((r.braces_sourced (hus.trans h)).map fun body hbody => ?_)
      rintro _ ⟨⟩
      exact hbody
    · exact .pure (by simp) List.suffix_rfl
termination_by 8 * ts.length + 2

theorem selection_sourced (r : Reader) {ts : List Token} (h : ts <:+ all) :
    Sourced r (fun s => AreSpelled all s.names) ts (r.selection ts) := by
  have hskip := skipLineEnds_suffix ts
  have hsubject : Sourced r (fun e => AreSpelled all e.names) ts
      (if nextIs openBrace ts then (⟨.absent, skipLineEnds ts, [], hskip⟩ : Parsed Expr ts)
        else (r.expression .lowest (skipLineEnds ts)).widen hskip) := by
    split_ifs
    · exact ⟨by simp [Expr.names], .nil hskip⟩
    · exact .behind hskip (r.expression_sourced .lowest (hskip.trans h))
  rw [selection]
  refine hsubject.andThen fun subject us hle hus hsubject => ?_
  refine (r.consume_sourced (by decide) us).andThen fun _ vs hle' hvs _ => ?_
  refine (r.arms_sourced ((hvs.trans hus).trans h)).andThen fun arms ws _ hws harms => ?_
  refine (r.consume_sourced (by decide) ws).andThen fun _ xs _ hxs _ => ?_
  refine (r.skipTerminator_sourced xs).map fun _ _ => ?_
  simpa [Stmt.names] using ⟨hsubject, harms⟩
termination_by 8 * ts.length + 4

theorem arms_sourced (r : Reader) {ts : List Token} (h : ts <:+ all) :
    Sourced r (fun arms => AreSpelled all (Arm.allNames arms)) ts (r.arms ts) := by
  cases ts with
  | nil =>
    rw [arms]
    exact .pure (by simp [Arm.allNames]) List.suffix_rfl
  | cons t us =>
    have hus : us <:+ t :: us := List.suffix_cons t us
    rw [arms]
    split_ifs
    · exact .behind hus (r.arms_sourced (hus.trans h))
    · refine .behind hus ((r.armOf_sourced _ (hus.trans h)).andThen fun arm vs hle hvs harm => ?_)
      have hlt : vs.length < (t :: us).length := Nat.lt_succ_of_le hle
      refine (r.arms_sourced ((hvs.trans hus).trans h)).map fun more hmore => ?_
      rw [Arm.allNames, areSpelled_append]
      exact ⟨harm, hmore⟩
    · exact .pure (by simp [Arm.allNames]) List.suffix_rfl
termination_by 8 * ts.length + 3

theorem armOf_sourced (r : Reader) (guarded : Bool) {ts : List Token} (h : ts <:+ all) :
    Sourced r (fun arm => AreSpelled all (arm.guard.names ++ Block.names arm.body)) ts (r.armOf guarded ts) := by
  have hguard : Sourced r (fun e => AreSpelled all e.names) ts
      (if guarded then r.expression .lowest ts else .pure .absent) := by
    split_ifs
    · exact r.expression_sourced .lowest h
    · exact .pure (by simp [Expr.names]) List.suffix_rfl
  rw [armOf]
  refine hguard.andThen fun guard us hle hus hguard => ?_
  refine (r.consume_sourced (by decide) us).andThen fun _ vs hle' hvs _ => ?_
  refine (r.block_sourced ((hvs.trans hus).trans h)).map fun body hbody => ?_
  exact areSpelled_append.mpr ⟨hguard, hbody⟩
termination_by 8 * ts.length + 1

end

/-! ## Programs -/

theorem procedureOf_sourced (r : Reader) (h : ts <:+ all) :
    Sourced r (fun p => ∀ q ∈ p, AreSpelled all (Block.names q.body)) ts (r.procedureOf ts) := by
  refine ((r.identifier_attempted h).map (W := fun _ => True) fun _ _ => trivial).recover trivial |>.andThen
    fun name us _ hus _ => ?_
  refine (r.consume_sourced (by decide) us).andThen fun _ vs _ hvs _ => ?_
  refine (r.consume_sourced (by decide) vs).andThen fun _ ws _ hws _ => ?_
  refine (r.braces_sourced (((hws.trans hvs).trans hus).trans h)).map fun body hbody => ?_
  intro q hq
  obtain ⟨x, -, rfl⟩ := Option.map_eq_some_iff.mp hq
  exact hbody

theorem procedureBy_sourced (r : Reader) {t : Token} (h : t :: us <:+ all) :
    Sourced r (fun p => ∀ q ∈ p, AreSpelled all (Block.names q.body)) (t :: us) (r.procedureBy t us) := by
  have hus : us <:+ t :: us := List.suffix_cons t us
  rw [procedureBy]
  split_ifs
  · exact (r.procedureOf_sourced (hus.trans h)).of_suffix hus
  · -- the fault is about the token that has been taken already
    exact .report (.unexpected (by decide)) (.pure (by simp) hus)

theorem procedures_sourced (r : Reader) {ts : List Token} (h : ts <:+ all) :
    Sourced r (fun ps => ∀ q ∈ ps, AreSpelled all (Block.names q.body)) ts (r.procedures ts) := by
  cases ts with
  | nil =>
    rw [procedures]
    exact .pure (by simp) List.suffix_rfl
  | cons t us =>
    have hus : us <:+ t :: us := List.suffix_cons t us
    rw [procedures]
    split_ifs
    · exact .behind hus (r.procedures_sourced (hus.trans h))
    · refine .widen _ ((r.procedureBy_sourced h).andThen fun p vs hle hvs hp => ?_)
      have hlt : vs.length < (t :: us).length := Nat.lt_succ_of_le hle
      refine (r.procedures_sourced (hvs.trans h)).map fun ps hps => ?_
      exact List.forall_mem_append.mpr ⟨by simpa using hp, hps⟩
termination_by ts.length

theorem packageClause_located (r : Reader) (ts : List Token) :
    r.Located ts (r.packageClause ts).rest (r.packageClause ts).faults := by
  let keyword := r.expect "package" ts
  let name := r.identifier keyword.rest
  let ending := r.terminator name.rest
  have hkeyword := r.expect_attempted (show "package" ∈ expectations by decide) ts
  simp only [packageClause]
  split
  · -- a wrong keyword hides what is wrong with the name and the terminator, which are taken all the same
    rename_i f hvalue
    obtain ⟨us, hus, hrest, hf⟩ := hkeyword.error f hvalue
    exact .cons hus hf (.nil ((ending.suffix.trans name.suffix).trans hrest))
  · have hname : Sourced r (Spelled keyword.rest) keyword.rest (name.recover "") :=
      (r.identifier_attempted List.suffix_rfl).recover (.inl rfl)
    have hending : Sourced r (fun _ => True) name.rest (ending.recover ()) :=
      (r.terminator_attempted name.rest).recover trivial
    have hfaults := hname.faults.append (by rw [rest_recover]; exact hending.faults)
    rw [rest_recover] at hfaults
    exact hfaults.of_suffix (tail_skipLineEnds_suffix ts)

end Reader

/-- The faults of a program stand at places of its tokens, in their order. -/
theorem Reading.located (ts : List Token) :
    ∃ rest, (Reader.standard ts).Located ts rest (Reading.ofTokens ts).program.faults := by
  have hclause := (Reader.standard ts).packageClause_located ts
  have hbody := (Reader.standard ts).procedures_sourced hclause.suffix
  simp only [Reading.ofTokens]
  split
  · exact ⟨_, hclause⟩
  · exact ⟨_, hclause.append hbody.faults⟩

/-- The names in a program are its identifiers, apart from those that are missing. -/
theorem Reading.areSpelled_names (ts : List Token) : AreSpelled ts (Reading.ofTokens ts).program.names := by
  have hclause := (Reader.standard ts).packageClause_located ts
  have hbody := (Reader.standard ts).procedures_sourced hclause.suffix
  simp only [Reading.ofTokens]
  split
  · simp [Program.names]
  · intro x hx
    obtain ⟨q, hq, hx⟩ := List.mem_flatMap.mp hx
    exact hbody.value q hq x hx

end AddressLines
