import AddressLines.Proofs.Grammar.Parts
import AddressLines.Proofs.Grammar.Exprs

/-!
# Climbing over operators

Reading a flat run and grafting its links one by one is the same as climbing over the operators: while the next operator
binds more strongly than the floor, it is taken together with all that binds more strongly than itself, and put above
what was read so far (`Reader.climb`, `Reader.expression_eq_climb`).

Whatever the powers, the floor and the tokens are, the tree is in normal form and has no operator at or below the
floor, and it ends only before a token that is no operator above the floor. Without faults it is the one tree in normal
form with the tokens that were taken (`Reader.expression_precedence`).
-/

namespace AddressLines

theorem Parsed.eq_of_parts {α : Type} {ts : List Token} {p q : Parsed α ts} (hvalue : p.value = q.value)
    (hrest : p.rest = q.rest) (hfaults : p.faults = q.faults) : p = q := by
  obtain ⟨value, rest, faults, suffix⟩ := p
  obtain ⟨value', rest', faults', suffix'⟩ := q
  dsimp only at hvalue hrest hfaults
  subst hvalue hrest hfaults
  rfl

/-! ## The operators of a tree -/

namespace Expr

/-- The operators of all binary nodes, from left to right. -/
def ops : Expr → List BinOp
  | .absent | .name _ | .literal _ => []
  | .unary _ e => e.ops
  | .binary l op r => l.ops ++ op :: r.ops

variable {power : BinOp → Power}

/-- An operand has no binary node. -/
theorem ops_of_root? {e : Expr} (hnormal : e.isNormal power = true) (hroot : e.root? = none) : e.ops = [] := by
  induction e with
  | unary op e ih =>
    obtain ⟨-, hroot', hnormal'⟩ := isNormal_unary.mp hnormal
    exact ih hnormal' hroot'
  | binary l op r => cases hroot
  | _ => rfl

theorem ops_graft (e right : Expr) (op : BinOp) : (e.graft power op right).ops = e.ops ++ op :: right.ops := by
  induction e with
  | binary l o r _ ih =>
    unfold graft
    split_ifs
    · rw [ops, ih, ops, List.append_assoc, List.cons_append]
    · rfl
  | _ => rfl

theorem ops_ofLinks {first : Expr} {links : List (BinOp × Expr)} (hlinks : ∀ link ∈ links, link.2.ops = []) :
    (ofLinks power first links).ops = first.ops ++ links.map Prod.fst := by
  induction links generalizing first with
  | nil => exact (List.append_nil _).symm
  | cons link links ih =>
    obtain ⟨hlink, hlinks⟩ := List.forall_mem_cons.mp hlinks
    calc (ofLinks power (first.graft power link.1 link.2) links).ops
        = (first.graft power link.1 link.2).ops ++ links.map Prod.fst := ih hlinks
      _ = first.ops ++ (link :: links).map Prod.fst := by
          rw [ops_graft, hlink, List.append_assoc, List.map_cons, List.cons_append, List.nil_append]

/-- The front of a run that is stronger than the link before it goes into the operand of that link. -/
theorem ofLinks_link {left : Expr} {op : BinOp} {front : List (BinOp × Expr)}
    (hleft : ∀ o ∈ left.root?, power op ≤ power o) (hfront : ∀ link ∈ front, power op < power link.1) (e : Expr)
    (back : List (BinOp × Expr)) :
    ofLinks power left ((op, e) :: (front ++ back)) = ofLinks power (.binary left op (ofLinks power e front)) back :=
  calc ofLinks power (left.graft power op e) (front ++ back)
      = ofLinks power (ofLinks power (.binary left op e) front) back := by
        rw [graft_of_le hleft]; exact List.foldl_append
    _ = ofLinks power (.binary left op (ofLinks power e front)) back := by rw [ofLinks_binary hfront]

/-! ## One tree for the tokens -/

/-- A tree in normal form is told by its tokens: they tell the run, by reading it again, and the run tells the tree. -/
theorem Yields.eq_of_isNormal {e e' : Expr} {es : List Token} (h : e.Yields es) (h' : e'.Yields es)
    (hnormal : e.isNormal power = true) (hnormal' : e'.isNormal power = true) : e = e' := by
  -- the usual powers are all above the lowest one, so a reader that has them takes the whole run
  let r : Reader := .standard []
  obtain ⟨fs, ls, rfl, hfirst, hchain⟩ := h.split
  obtain ⟨fs', ls', hsplit, hfirst', hchain'⟩ := h'.split
  have hread := Reader.operand_gives (r := r) hfirst e.root?_first (isNormal_first hnormal) ls
  have hread' := Reader.operand_gives (r := r) hfirst' e'.root?_first (isNormal_first hnormal') ls'
  rw [← hsplit] at hread'
  have hfirsts : e.first = e'.first := hread.1.symm.trans hread'.1
  obtain rfl : ls = ls' := hread.2.1.symm.trans hread'.2.1
  have hlinks : ∀ {e : Expr}, e.isNormal power = true → LinksYield e.chain ls →
      (r.links .lowest (ls ++ [])).Gives e.chain [] := by
    intro e hnormal hchain
    have hoperands : ∀ link ∈ e.chain, link.2.root? = none ∧ link.2.isNormal power = true ∧
        Power.lowest < r.grammar.power link.1 := fun link hlink =>
      ⟨root?_of_mem_chain hlink, isNormal_of_mem_chain hnormal hlink, Reader.lowest_lt_power link.1⟩
    exact Reader.links_gives hchain hoperands (Reader.stops_of_kind (by simp))
  have hchains : e.chain = e'.chain := (hlinks hnormal hchain).1.symm.trans (hlinks hnormal' hchain').1
  rw [← ofLinks_first_chain hnormal, ← ofLinks_first_chain hnormal', hfirsts, hchains]

end Expr

/-! ## Runs of links -/

namespace Reader

open Parsed

variable (r : Reader)

theorem lt_of_mem_links (floor : Power) (ts : List Token) :
    ∀ link ∈ (r.links floor ts).value, floor < r.grammar.power link.1 := by
  fun_induction r.links floor ts with
  | case1 => simp
  | case2 => simp
  | case3 t us op hop hfloor ih => exact List.forall_mem_cons.mpr ⟨hfloor, ih _ (Parsed.suffix _).length_le⟩
  | case4 => simp

theorem stops_links (floor : Power) (ts : List Token) : r.Stops floor (r.links floor ts).rest := by
  fun_induction r.links floor ts with
  | case1 =>
    intro t ht
    cases ht
  | case2 t us hop =>
    rintro _ ⟨⟩ op hop'
    rw [hop] at hop'
    cases hop'
  | case3 t us op hop hfloor ih => exact ih _ (Parsed.suffix _).length_le
  | case4 t us op hop hfloor =>
    rintro _ ⟨⟩ op' hop'
    obtain rfl : op = op' := Option.some.inj (hop.symm.trans hop')
    exact hfloor

/-- A run above a floor starts with the run above any higher floor. -/
theorem links_eq_andThen {floor high : Power} (hle : floor ≤ high) (ts : List Token) :
    r.links floor ts = (r.links high ts).andThen fun front us _ => (r.links floor us).map (front ++ ·) := by
  fun_induction r.links high ts with
  | case1 => exact eq_of_parts rfl rfl rfl
  | case2 t us hop => exact eq_of_parts rfl rfl rfl
  | case3 t us op hop hhigh ih =>
    have hrest := ih _ (r.operand us).suffix.length_le
    rw [links]
    simp only [hop, if_pos (lt_of_le_of_lt hle hhigh)]
    refine eq_of_parts ?_ ?_ ?_
    · simp [hrest]
    · simp [hrest]
    · simp [hrest]
  | case4 t us op hop hhigh => exact eq_of_parts rfl rfl rfl

/-! ## Climbing -/

/-- Operators stronger than `floor`, each with all that is stronger than itself, put above `left` one by one. -/
def climb (r : Reader) (floor : Power) (left : Expr) (ts : List Token) : Parsed Expr ts :=
  match ts with
  | [] => .pure left
  | t :: us =>
    match t.binOp? with
    | none => .pure left
    | some op =>
      if floor < r.grammar.power op then
        ((r.expression (r.grammar.power op) us).andThen fun right vs _ =>
          r.climb floor (.binary left op right) vs).widen (List.suffix_cons t us)
      else .pure left
termination_by ts.length
decreasing_by simp only [List.length_cons]; omega

/-- The next operator above the floor is no stronger than the top of the tree. -/
def Tops (floor : Power) (left : Expr) (ts : List Token) : Prop :=
  ∀ t ∈ ts.head?, ∀ op ∈ t.binOp?, floor < r.grammar.power op → ∀ o ∈ left.root?, r.grammar.power op ≤ r.grammar.power o

/-- Climbing puts the links of the run into the tree as grafting does. -/
theorem climb_eq_links (floor : Power) (left : Expr) (ts : List Token) (htops : r.Tops floor left ts) :
    r.climb floor left ts = (r.links floor ts).map fun more => Expr.ofLinks r.grammar.power left more := by
  fun_induction r.climb floor left ts with
  | case1 left => rw [links]; rfl
  | case2 left t us hop =>
    rw [links]
    simp only [hop]
    rfl
  | case3 left t us op hop hfloor ih =>
    -- the right operand takes the front of the run, and what is left of the run goes above it
    have hsplit := r.links_eq_andThen (le_of_lt hfloor) (r.operand us).rest
    have hnext : r.Tops floor (.binary left op (r.expression (r.grammar.power op) us).value)
        (r.expression (r.grammar.power op) us).rest := by
      intro t' ht' op' hop' _ o ho
      obtain rfl : op = o := Option.some.inj ho
      exact not_lt.mp (r.stops_links _ _ t' ht' op' hop')
    have hclimb := ih _ _ (r.expression (r.grammar.power op) us).suffix.length_le hnext
    have hvalue := Expr.ofLinks_link (htops t rfl op hop hfloor)
      (r.lt_of_mem_links (r.grammar.power op) (r.operand us).rest) (r.operand us).value
      (r.links floor (r.links (r.grammar.power op) (r.operand us).rest).rest).value
    rw [links]
    simp only [hop, if_pos hfloor]
    refine eq_of_parts ?_ ?_ ?_
    · simp only [value_widen, value_andThen, value_map, hclimb, hsplit]
      exact hvalue.symm
    · simp only [rest_widen, rest_andThen, rest_map, hclimb, hsplit]
      rfl
    · simp only [faults_widen, faults_andThen, faults_map, hclimb, hsplit]
      exact List.append_assoc ..
  | case4 left t us op hop hfloor =>
    rw [links]
    simp only [hop, if_neg hfloor]
    rfl

theorem expression_eq_climb (floor : Power) (ts : List Token) :
    r.expression floor ts = (r.operand ts).andThen fun first us _ => r.climb floor first us := by
  have hclimb := r.climb_eq_links floor (r.operand ts).value (r.operand ts).rest (by
    intro t _ op _ _ o ho
    rw [(r.isNormal_operand r.grammar.power ts).1] at ho
    cases ho)
  refine eq_of_parts ?_ ?_ ?_
  · rw [value_andThen, hclimb]; rfl
  · rw [rest_andThen, hclimb]; rfl
  · rw [faults_andThen, hclimb]; rfl

theorem stops_expression (floor : Power) (ts : List Token) : r.Stops floor (r.expression floor ts).rest :=
  r.stops_links floor (r.operand ts).rest

theorem lt_of_mem_ops (floor : Power) (ts : List Token) :
    ∀ op ∈ (r.expression floor ts).value.ops, floor < r.grammar.power op := by
  have hfirst := r.isNormal_operand r.grammar.power ts
  have hlinks := r.isNormal_links r.grammar.power floor (r.operand ts).rest
  have hops : (r.expression floor ts).value.ops = (r.links floor (r.operand ts).rest).value.map Prod.fst := by
    have hnone : ∀ link ∈ (r.links floor (r.operand ts).rest).value, link.2.ops = [] :=
      fun link hlink => Expr.ops_of_root? (hlinks link hlink).2 (hlinks link hlink).1
    calc (r.expression floor ts).value.ops
        = (r.operand ts).value.ops ++ (r.links floor (r.operand ts).rest).value.map Prod.fst := Expr.ops_ofLinks hnone
      _ = (r.links floor (r.operand ts).rest).value.map Prod.fst := by
          rw [Expr.ops_of_root? hfirst.2 hfirst.1, List.nil_append]
  intro op hop
  rw [hops] at hop
  obtain ⟨link, hlink, rfl⟩ := List.mem_map.mp hop
  exact r.lt_of_mem_links floor _ link hlink

/-- Reading an expression with any powers, from any floor, off any tokens. It is climbing over operators. Whether or not
there are faults, the tree is in normal form, all its operators are above the floor, and what is left does not start
with an operator above the floor. If there are no faults, the tokens taken are those of the tree from left to right,
and no other tree in normal form has these tokens. -/
theorem expression_precedence (floor : Power) (ts : List Token) :
    (r.expression floor ts = (r.operand ts).andThen fun first us _ => r.climb floor first us) ∧
      (r.expression floor ts).value.isNormal r.grammar.power = true ∧
      (∀ op ∈ (r.expression floor ts).value.ops, floor < r.grammar.power op) ∧
      r.Stops floor (r.expression floor ts).rest ∧
      ((r.expression floor ts).faults = [] → ∃ es, ts = es ++ (r.expression floor ts).rest ∧
        (r.expression floor ts).value.Yields es ∧
        ∀ e : Expr, e.Yields es → e.isNormal r.grammar.power = true → e = (r.expression floor ts).value) := by
  have hnormal := r.isNormal_expression floor ts
  refine ⟨r.expression_eq_climb floor ts, hnormal, r.lt_of_mem_ops floor ts, r.stops_expression floor ts, ?_⟩
  intro hnone
  obtain ⟨es, hyields, hts⟩ := expression_takes floor ts hnone
  refine ⟨es, hts, hyields, fun e he hnormal' => ?_⟩
  exact he.eq_of_isNormal hyields hnormal' hnormal

/-- A reader for which sums bind more strongly than products and differences. -/
def sumsFirst : Reader :=
  ⟨(Grammar.standard.register "+" .product).register "*" .sum, ⟨0, ""⟩⟩

/-- A product, a sum with a sign before its second operand, and a difference, before a brace. -/
def mixedTokens : List Token :=
  [.bare .identifier "a", .bare .operator "*", .bare .identifier "b", .bare .operator "+", .bare .operator "-",
    .bare .identifier "c", .bare .operator "-", .bare .identifier "d", .bare .delimiter openBrace]

def mixedTree : Expr :=
  .binary (.binary (.name "a") .mul (.binary (.name "b") .add (.unary "-" (.name "c")))) .sub (.name "d")

theorem expression_precedence_mixed :
    (sumsFirst.expression .lowest mixedTokens).faults = [] ∧
      (sumsFirst.expression .lowest mixedTokens).value = mixedTree ∧
      ∃ es, mixedTokens = es ++ [.bare .delimiter openBrace] ∧ mixedTree.Yields es ∧
        ∀ e : Expr, e.Yields es → e.isNormal sumsFirst.grammar.power = true → e = mixedTree := by
  have hnone : (sumsFirst.expression .lowest mixedTokens).faults = [] := by decide +kernel
  have hvalue : (sumsFirst.expression .lowest mixedTokens).value = mixedTree := by decide +kernel
  have hrest : (sumsFirst.expression .lowest mixedTokens).rest = [.bare .delimiter openBrace] := by decide +kernel
  obtain ⟨-, -, -, -, htree⟩ := expression_precedence sumsFirst .lowest mixedTokens
  have hes := htree hnone
  rw [hvalue, hrest] at hes
  exact ⟨hnone, hvalue, hes⟩

end Reader

end AddressLines
