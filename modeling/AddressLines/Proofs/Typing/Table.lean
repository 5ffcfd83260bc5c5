import AddressLines.Proofs.Typing.Discipline
import AddressLines.Proofs.Typing.Faults
import AddressLines.Proofs.Typing.Sites

/-!
# What the table of variables lists

At each depth the table of a checked program lists the variables of the blocks there, one block after the other. Every
later definition of a name in its block is a fault, and there is no other fault of this kind.

The checker is followed statement by statement. Its innermost scope holds the variables of the statements before
(`Checker.StandsBehind`), and `Checker.Records` tells what is added to the table and to these faults.
-/

namespace AddressLines

/-! ## Depth by depth -/

/-- The variables of a block and those of the blocks in it stand at different depths, so that their order is free. -/
theorem Definition.atDepth_swap {depth : Nat} {inner : List Definition} (hinner : ∀ d ∈ inner, depth < d.depth)
    (own : List (String × Ty)) (k : Nat) :
    atDepth k (inner ++ listed depth own) = atDepth k (listed depth own ++ inner) := by
  rw [atDepth_append, atDepth_append]
  by_cases hk : k = depth
  · have hnone : atDepth k inner = [] := atDepth_eq_nil fun d hd => hk ▸ Nat.ne_of_gt (hinner d hd)
    rw [hnone, List.nil_append, List.append_nil]
  · have hnone : atDepth k (listed depth own) = [] :=
      atDepth_eq_nil fun d hd heq => hk (heq.symm.trans (depth_of_mem_listed hd))
    rw [hnone, List.nil_append, List.append_nil]

/-- The definitions of one depth are those of the blocks at this depth. -/
theorem Site.atDepth_flatMap (k : Nat) (sites : List Site) :
    Definition.atDepth k (sites.flatMap definitions) = (sites.filter (·.depth == k)).flatMap definitions := by
  induction sites with
  | nil => rfl
  | cons site sites ih =>
    rw [List.flatMap_cons, Definition.atDepth_append, ih, List.filter_cons]
    split_ifs with hk
    · have hall : Definition.atDepth k site.definitions = site.definitions := by
        rw [Definition.atDepth, List.filter_eq_self]
        intro d hd
        rwa [Definition.depth_of_mem_listed hd]
      rw [hall, List.flatMap_cons]
    · have hnone : Definition.atDepth k site.definitions = [] := by
        refine Definition.atDepth_eq_nil fun d hd heq => hk (beq_iff_eq.mpr ?_)
        rw [← heq, Definition.depth_of_mem_listed hd]
      rw [hnone, List.nil_append]

/-! ## What the checker records -/

namespace Checker

variable {c d : Checker} {depth : Nat} {outer look : String → Option Ty} {before b : Block} {s : Stmt}

/-- The second checker has these definitions and these redefinitions more than the first one; the definitions are told
depth by depth. -/
structure Records (c d : Checker) (ds : List Definition) (xs : List String) : Prop where
  table : ∀ k, Definition.atDepth k d.defined = Definition.atDepth k c.defined ++ Definition.atDepth k ds
  faults : d.faults.filter Fault.isRedefinition =
    c.faults.filter Fault.isRedefinition ++ xs.map Fault.redefinition

variable {ds ds' : List Definition} {xs xs' : List String}

theorem Records.refl (c : Checker) : c.Records c [] [] :=
  ⟨fun k => by simp [Definition.atDepth], by simp⟩

theorem Records.trans {e : Checker} (h : c.Records d ds xs) (h' : d.Records e ds' xs') :
    c.Records e (ds ++ ds') (xs ++ xs') := by
  refine ⟨fun k => ?_, ?_⟩
  · rw [h'.table, h.table, Definition.atDepth_append, List.append_assoc]
  · rw [h'.faults, h.faults, List.map_append, List.append_assoc]

theorem Records.reorder (h : c.Records d ds xs) (heq : ∀ k, Definition.atDepth k ds = Definition.atDepth k ds') :
    c.Records d ds' xs :=
  ⟨fun k => heq k ▸ h.table k, h.faults⟩

theorem Records.nested (h : c.push.Records d ds xs) : c.Records d.pop ds xs := by
  refine ⟨fun k => ?_, ?_⟩
  · rw [defined_pop]
    exact h.table k
  · rw [faults_pop]
    exact h.faults

/-! ### Faults of other kinds -/

theorem reportAll_records {faults : List Fault} (h : ∀ f ∈ faults, f.isRedefinition = false) :
    c.Records (c.reportAll faults) [] [] := by
  refine ⟨fun k => by simp [reportAll, Definition.atDepth], ?_⟩
  have hnone : faults.filter Fault.isRedefinition = [] := by
    rw [List.filter_eq_nil_iff]
    intro f hf
    simp [h f hf]
  rw [reportAll, List.filter_append, hnone, List.map_nil]

theorem report_records {cause : Fault.Cause} (h : Fault.isRedefinition ⟨cause, none⟩ = false) :
    c.Records (c.report cause) [] [] :=
  reportAll_records (by simpa using h)

theorem checkExpr_records (c : Checker) (e : Expr) : c.Records (c.checkExpr e) [] [] := by
  refine reportAll_records fun f hf => ?_
  rcases cases_of_mem_infer hf with ⟨x, -, rfl⟩ | ⟨left, right, rfl⟩
  · rfl
  · rfl

theorem checkCondition_records (c : Checker) (e : Expr) : c.Records (c.checkCondition e) [] [] := by
  have hexpr := c.checkExpr_records e
  simp only [checkCondition]
  split_ifs
  · exact hexpr
  · exact hexpr.trans (report_records rfl)

theorem checkAssignment_records (c : Checker) (x : String) (e : Expr) :
    c.Records (c.checkAssignment x e) [] [] := by
  have hexpr := c.checkExpr_records e
  simp only [checkAssignment]
  split
  · exact report_records rfl
  · split_ifs
    · exact hexpr
    · exact hexpr.trans (report_records rfl)

theorem checkGuard_records (c : Checker) (subject : Option Ty) (guard : Expr) :
    c.Records (c.checkGuard subject guard) [] [] := by
  unfold checkGuard
  split_ifs
  · exact .refl c
  · split
    · exact c.checkCondition_records guard
    · exact (c.checkExpr_records guard).trans (reportAll_records fun f hf => eq_of_mem_operation hf ▸ rfl)

/-! ### Places -/

/-- What the checker knows at a place: the depth of the innermost scope and the types of names. -/
structure Sees (c : Checker) (depth : Nat) (look : String → Option Ty) : Prop where
  isOpen : c.scopes ≠ []
  depth : c.depth = depth
  look : c.fetch? = look

theorem Sees.congr (h : c.Sees depth look) (hscopes : d.scopes = c.scopes) : d.Sees depth look := by
  refine ⟨hscopes ▸ h.isOpen, ?_, (fetch?_congr hscopes).trans h.look⟩
  rw [← h.depth, Checker.depth, Checker.depth, hscopes]

/-- The innermost scope is that of a block at this depth, and holds the variables of its first statements. -/
def StandsBehind (c : Checker) (depth : Nat) (outer : String → Option Ty) (before : Block) : Prop :=
  ∃ ss, c.scopes = ⟨depth, Block.entries outer before⟩ :: ss ∧ ∀ x, ss.findSome? (·.find? x) = outer x

theorem StandsBehind.sees (h : c.StandsBehind depth outer before) : c.Sees depth (Block.look outer before) := by
  obtain ⟨ss, hc, houter⟩ := h
  refine ⟨by simp [hc], by simp [Checker.depth, hc], ?_⟩
  funext x
  rw [fetch?, hc, List.findSome?_cons, Block.look, typesBehind, ← houter]
  cases hx : (Block.entries outer before).lookup x <;> simp [Scope.find?, hx]

theorem StandsBehind.isDeclaredHere_iff (h : c.StandsBehind depth outer before) (x : String) :
    c.isDeclaredHere x = true ↔ x ∈ Block.definedNames before := by
  obtain ⟨ss, hc, -⟩ := h
  rw [← @Block.mem_map_fst_entries outer]
  simp [isDeclaredHere, hc, Scope.find?]

theorem Sees.push_standsBehind (h : c.Sees depth look) : c.push.StandsBehind (depth + 1) look [] := by
  refine ⟨c.scopes, ?_, fun x => congrFun h.look x⟩
  rw [Checker.push, h.depth]
  rfl

theorem enterProcedure_standsBehind (c : Checker) : c.enterProcedure.StandsBehind 0 (fun _ => none) [] :=
  ⟨[], rfl, fun _ => rfl⟩

/-! ### Statements -/

/-- From behind the statements `before` to behind those `after` them: the table gets their variables and those of the
blocks in them. -/
structure Walks (c d : Checker) (depth : Nat) (outer : String → Option Ty) (before after : Block) (sites : List Site)
    (xs : List String) : Prop where
  stands : d.StandsBehind depth outer (before ++ after)
  records : ∃ own, Block.entries outer (before ++ after) = Block.entries outer before ++ own ∧
    c.Records d (Definition.listed depth own ++ sites.flatMap Site.definitions) xs

variable {sites sites' : List Site} {after : Block}

theorem Walks.nil (h : c.StandsBehind depth outer before) : c.Walks c depth outer before [] [] [] := by
  refine ⟨?_, [], ?_, .refl c⟩
  · rwa [List.append_nil]
  · rw [List.append_nil, List.append_nil]

theorem Walks.cons {e : Checker} (h : c.Walks d depth outer before [s] sites xs)
    (hdeeper : ∀ site ∈ sites, depth < site.depth)
    (h' : d.Walks e depth outer (before ++ [s]) after sites' xs') :
    c.Walks e depth outer before (s :: after) (sites ++ sites') (xs ++ xs') := by
  obtain ⟨-, own, hown, hrecords⟩ := h
  obtain ⟨hstands, own', hown', hrecords'⟩ := h'
  rw [List.append_assoc, List.singleton_append] at hstands hown'
  have hinner : ∀ d ∈ sites.flatMap Site.definitions, depth < d.depth := by
    intro d hd
    obtain ⟨site, hsite, hd⟩ := List.mem_flatMap.mp hd
    rw [Definition.depth_of_mem_listed hd]
    exact hdeeper site hsite
  refine ⟨hstands, own ++ own', ?_, (hrecords.trans hrecords').reorder fun k => ?_⟩
  · rw [hown', hown, List.append_assoc]
  · have hlisted : Definition.listed depth (own ++ own') = Definition.listed depth own ++ Definition.listed depth own' :=
      List.map_append
    have hswap := Definition.atDepth_swap hinner own' k
    simp only [hlisted, List.flatMap_append, Definition.atDepth_append, List.append_assoc] at hswap ⊢
    rw [← List.append_assoc (Definition.atDepth k (sites.flatMap Site.definitions)), hswap, List.append_assoc]

/-- All statements of a block: the table gets the variables of the block and of the blocks in it. -/
theorem Walks.records_block (h : c.Walks d depth outer [] b sites xs) :
    c.Records d ((⟨depth, outer, b⟩ :: sites).flatMap Site.definitions) xs := by
  obtain ⟨-, own, hown, hrecords⟩ := h
  obtain rfl : Block.entries outer b = own := hown
  exact hrecords

/-- A statement that defines no new name leaves the scopes as they are. -/
theorem Walks.of_old (h : c.StandsBehind depth outer before)
    (hs : ∀ x e, s.defines? = some (x, e) → x ∈ Block.definedNames before) (hscopes : d.scopes = c.scopes)
    (hrecords : c.Records d (sites.flatMap Site.definitions) xs) : c.Walks d depth outer before [s] sites xs := by
  have hentries : Block.entries outer (before ++ [s]) = Block.entries outer before := Block.entries_append_of_old hs
  refine ⟨?_, [], ?_, hrecords⟩
  · rw [StandsBehind, hscopes, hentries]
    exact h
  · rw [hentries, List.append_nil]

theorem Walks.of_none (h : c.StandsBehind depth outer before) (hs : s.defines? = none) (hscopes : d.scopes = c.scopes)
    (hrecords : c.Records d (sites.flatMap Site.definitions) xs) :
    c.Walks d depth outer before [s] sites (s.redefines before ++ xs) := by
  have hnone : s.redefines before = [] := by simp [Stmt.redefines, hs]
  rw [hnone]
  exact .of_old h (by simp [hs]) hscopes hrecords

/-- A definition: the first one of its name is listed, a later one is a fault. -/
theorem Walks.of_definition (h : c.StandsBehind depth outer before) {x : String} {e : Expr}
    (hs : s.defines? = some (x, e)) :
    c.Walks (c.checkDefinition x e) depth outer before [s] [] (s.redefines before) := by
  by_cases hx : x ∈ Block.definedNames before
  · have hhere := (h.isDeclaredHere_iff x).mpr hx
    have hagain : s.redefines before = [x] := by simp [Stmt.redefines, hs, hx]
    have hold : ∀ y e', s.defines? = some (y, e') → y ∈ Block.definedNames before := by
      intro y e' hy
      obtain ⟨rfl, -⟩ : x = y ∧ e = e' := by simpa using hs.symm.trans hy
      exact hx
    rw [checkDefinition, if_pos hhere, hagain]
    refine .of_old h hold rfl ⟨fun k => by simp [report, Definition.atDepth], ?_⟩
    rw [report, List.filter_append]
    rfl
  · have hhere : c.isDeclaredHere x = false := by simpa [hx] using h.isDeclaredHere_iff x
    have hnew : s.redefines before = [] := by simp [Stmt.redefines, hs, hx]
    have hinfer : c.infer e = (e.infer (Block.look outer before)).1 := by rw [infer, h.sees.look]
    have hentries : Block.entries outer (before ++ [s]) = Block.entries outer before ++ [(x, c.infer e)] := by
      rw [hinfer]
      exact Block.entries_append_of_first hs hx
    obtain ⟨ss, hc, houter⟩ := h
    have hfind : Scope.find? ⟨depth, Block.entries outer before⟩ x = none := by
      simpa [isDeclaredHere, hc] using hhere
    have hdeclare : (c.checkExpr e).declare x (c.infer e) =
        ⟨⟨depth, Block.entries outer (before ++ [s])⟩ :: ss, c.defined ++ [⟨depth, x, c.infer e⟩],
          (c.checkExpr e).faults⟩ := by
      simp only [declare, scopes_checkExpr, hc, hfind, hentries]
      rfl
    rw [checkDefinition, hhere, if_neg Bool.false_ne_true, hdeclare, hnew]
    refine ⟨⟨ss, rfl, houter⟩, [(x, c.infer e)], hentries, ?_⟩
    exact ⟨fun k => Definition.atDepth_append k _ _, (c.checkExpr_records e).faults⟩

/-- A nested block has a scope of its own, which is closed behind it. -/
theorem Walks.records_nested
    (h : c.push.Walks (c.push.checkBlock b) depth outer [] b (Block.sitesIn depth outer [] b) xs) :
    c.Records (c.checkNested b) ((Block.sites depth outer b).flatMap Site.definitions) xs :=
  h.records_block.nested

mutual

theorem checkStmt_walks : ∀ (s : Stmt) {c : Checker} {depth : Nat} {outer : String → Option Ty} {before : Block},
    c.StandsBehind depth outer before →
      c.Walks (c.checkStmt s) depth outer before [s] (s.sites depth (Block.look outer before))
        (s.redefines before ++ s.redefined)
  | .assign x defines e, c, depth, outer, before, h => by
    rw [checkStmt, Stmt.sites, Stmt.redefined]
    split_ifs with habsent hdefines
    · exact .of_none h (by cases defines <;> simp [Stmt.defines?, habsent]) rfl (.refl c)
    · subst hdefines
      rw [List.append_nil]
      exact .of_definition h (if_neg habsent)
    · obtain rfl : defines = false := Bool.eq_false_iff.mpr hdefines
      exact .of_none h rfl (scopes_checkAssignment c x e) (c.checkAssignment_records x e)
  | .branch word, c, depth, outer, before, h => by
    rw [checkStmt, Stmt.sites, Stmt.redefined]
    exact .of_none h rfl rfl (.refl c)
  | .cond e body none, c, depth, outer, before, h => by
    have hscopes := scopes_checkStmt h.sees.isOpen (s := .cond e body none) rfl
    have hcond := h.sees.congr (scopes_checkCondition c e)
    have hbody := (checkBlock_walks body hcond.push_standsBehind).records_nested
    rw [checkStmt_cond] at hscopes ⊢
    rw [Stmt.sites_cond, Stmt.redefined]
    exact .of_none h rfl hscopes ((c.checkCondition_records e).trans hbody)
  | .cond e body (some alternative), c, depth, outer, before, h => by
    have hscopes := scopes_checkStmt h.sees.isOpen (s := .cond e body (some alternative)) rfl
    have hcond := h.sees.congr (scopes_checkCondition c e)
    have hbody := (checkBlock_walks body hcond.push_standsBehind).records_nested
    have hnext := hcond.congr (scopes_checkNested hcond.isOpen body)
    have halternative := (checkBlock_walks alternative hnext.push_standsBehind).records_nested
    rw [checkStmt_condElse] at hscopes ⊢
    rw [Stmt.sites_condElse, Stmt.redefined]
    refine .of_none h rfl hscopes ?_
    rw [List.flatMap_append]
    exact ((c.checkCondition_records e).trans hbody).trans halternative
  | .switch e arms, c, depth, outer, before, h => by
    have hscopes := scopes_checkStmt h.sees.isOpen (s := .switch e arms) rfl
    -- the scope of the switch itself stays empty
    have hopened := (h.sees.congr (scopes_checkExpr c e)).push_standsBehind.sees
    rw [Block.look_nil] at hopened
    rw [checkStmt] at hscopes ⊢
    rw [Stmt.sites, Stmt.redefined]
    exact .of_none h rfl hscopes ((c.checkExpr_records e).trans (checkArms_records arms hopened).nested)

theorem checkBlock_walks : ∀ (b : Block) {c : Checker} {depth : Nat} {outer : String → Option Ty} {before : Block},
    c.StandsBehind depth outer before →
      c.Walks (c.checkBlock b) depth outer before b (Block.sitesIn depth outer before b) (Block.redefined before b)
  | [], c, depth, outer, before, h => by
    rw [checkBlock, Block.sitesIn, Block.redefined]
    exact .nil h
  | s :: ss, c, depth, outer, before, h => by
    have hstmt := checkStmt_walks s h
    rw [checkBlock, Block.sitesIn, Block.redefined]
    exact hstmt.cons (Stmt.lt_depth_sites s) (checkBlock_walks ss hstmt.stands)

theorem checkArms_records : ∀ (arms : List (Arm Stmt)) {c : Checker} {subject : Option Ty} {depth : Nat}
    {look : String → Option Ty}, c.Sees depth look →
      c.Records (c.checkArms subject arms) ((Arm.sites (depth + 1) look arms).flatMap Site.definitions)
        (Arm.redefined arms)
  | [], c, subject, depth, look, h => by
    rw [checkArms, Arm.sites, Arm.redefined]
    exact .refl c
  | ⟨guard, body⟩ :: arms, c, subject, depth, look, h => by
    have hguard := h.congr (scopes_checkGuard c subject guard)
    have hbody := (checkBlock_walks body hguard.push_standsBehind).records_nested
    have hnext := hguard.congr (scopes_checkNested hguard.isOpen body)
    rw [checkArms_cons, Arm.sites_cons, Arm.redefined, List.flatMap_append]
    exact ((c.checkGuard_records subject guard).trans hbody).trans (checkArms_records arms hnext)

end

/-! ### Programs -/

theorem checkProcedure_records (c : Checker) (p : Procedure) :
    c.Records (c.checkProcedure p) ((Block.sites 0 (fun _ => none) p.body).flatMap Site.definitions)
      (Block.redefined [] p.body) := by
  have hbody := (checkBlock_walks p.body c.enterProcedure_standsBehind).records_block
  exact ⟨hbody.table, hbody.faults⟩

theorem foldl_checkProcedure_records (c : Checker) (ps : List Procedure) :
    c.Records (ps.foldl checkProcedure c)
      ((ps.flatMap fun p => Block.sites 0 (fun _ => none) p.body).flatMap Site.definitions)
      (ps.flatMap fun p => Block.redefined [] p.body) := by
  induction ps generalizing c with
  | nil => exact .refl c
  | cons p ps ih =>
    rw [List.foldl_cons, List.flatMap_cons, List.flatMap_cons, List.flatMap_append]
    exact (c.checkProcedure_records p).trans (ih _)

end Checker

/-- The table of a checked program lists at each depth the variables of the blocks at this depth, one block after the
other. The variables of a block are the names that it defines, each once and in the order of the first definitions, with
the type of the value at the first definition. Among the faults there is one for every later definition of a name in its
block, in the order of the program, and no other about a name that is defined already. -/
theorem Program.check_table (p : Program) :
    (∀ k, p.check.variablesAt k = (p.sites.filter (·.depth == k)).flatMap Site.definitions) ∧
    (∀ site ∈ p.sites,
      site.definitions.map Definition.name = (Block.definedNames site.body).eraseDups ∧
      ∀ before x e after, site.body = before ++ .assign x true e :: after → e ≠ .absent →
        x ∉ Block.definedNames before →
          ⟨site.depth, x, (e.infer (Block.look site.outer before)).1⟩ ∈ site.definitions) ∧
    p.check.faults.filter Fault.isRedefinition = p.redefined.map Fault.redefinition := by
  have hrecords := Checker.start.foldl_checkProcedure_records p.procedures
  refine ⟨fun k => ?_, fun site _ => ⟨?_, fun before x e after hbody he hx => ?_⟩, hrecords.faults⟩
  · rw [Checker.variablesAt_eq, ← Site.atDepth_flatMap]
    exact hrecords.table k
  · rw [Site.definitions, Definition.listed, List.map_map, ← Block.map_fst_entries site.outer]
    rfl
  · have hdefines : (Stmt.assign x true e).defines? = some (x, e) := if_neg (mt Expr.isAbsent_iff.mp he)
    rw [Site.definitions, hbody]
    exact List.mem_map_of_mem (Block.mem_entries_of_first hdefines hx)

/-- A procedure in which every block defines the same name, once in the switch and twice in the others. -/
example :
    let p : Program := { procedures := [⟨"f", [.assign "a" true (.literal (.integer 1)),
      .cond (.literal (.boolean true)) [.assign "a" true (.literal (.boolean true)), .assign "a" true .absent,
        .assign "a" true (.name "b")] none,
      .assign "a" true (.name "b"), .switch .absent [⟨.absent, [.assign "a" true (.name "a")]⟩]]⟩] }
    (p.sites.flatMap Site.definitions = [⟨0, "a", .integer⟩, ⟨1, "a", .boolean⟩, ⟨2, "a", .integer⟩]) ∧
      p.redefined = ["a", "a"] := by
  decide

end AddressLines
