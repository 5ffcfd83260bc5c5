import AddressLines.Typing.Check
import Mathlib.Data.List.Induction

/-!
# The variables of a program, told from its text

The blocks of a program stand at depths: the body of a procedure at depth zero, the blocks of a conditional one deeper
than the block around it, the bodies of a switch two deeper. A block has a variable for each name that it defines, in
the order of the first definitions and with the type of the value there. What a block defines is no matter of the blocks
in it or beside it; only the types of values may depend on the names of the blocks around it.
-/

namespace AddressLines

/-! ## The variables of a block -/

/-- The name a statement defines and its value. A definition whose value is missing defines nothing. -/
def Stmt.defines? : Stmt → Option (String × Expr)
  | .assign x true e => if e.isAbsent then none else some (x, e)
  | _ => none

/-- The types of names behind variables of a block, when `outer` tells those of the names from outside. -/
def typesBehind (outer : String → Option Ty) (known : List (String × Ty)) (x : String) : Option Ty :=
  (known.lookup x).or (outer x)

/-- Adds the variable that a statement defines, unless its name is there. -/
def Stmt.addEntry (outer : String → Option Ty) (known : List (String × Ty)) (s : Stmt) : List (String × Ty) :=
  match s.defines? with
  | none => known
  | some (x, e) => if x ∈ known.map Prod.fst then known else known ++ [(x, (e.infer (typesBehind outer known)).1)]

namespace Block

/-- The names defined directly in a block, as often as they are defined. -/
def definedNames (b : Block) : List String :=
  b.filterMap fun s => s.defines?.map Prod.fst

/-- The variables of a block with their types, when `outer` tells the types of the names from outside. -/
def entries (outer : String → Option Ty) (b : Block) : List (String × Ty) :=
  b.foldl (Stmt.addEntry outer) []

/-- The types of names behind some statements of a block. -/
def look (outer : String → Option Ty) (before : Block) : String → Option Ty :=
  typesBehind outer (entries outer before)

variable {outer : String → Option Ty} {before b : Block} {s : Stmt} {x : String} {e : Expr}

theorem entries_append : entries outer (before ++ [s]) = s.addEntry outer (entries outer before) := by
  rw [entries, entries, List.foldl_append, List.foldl_cons, List.foldl_nil]

theorem look_nil (outer : String → Option Ty) : look outer [] = outer :=
  rfl

theorem definedNames_append :
    definedNames (before ++ [s]) = definedNames before ++ (s.defines?.map Prod.fst).toList := by
  rw [definedNames, List.filterMap_append]
  cases hs : s.defines? <;> simp [hs, definedNames]

/-- Each name once, in the order of the first definitions. -/
theorem map_fst_entries (outer : String → Option Ty) (b : Block) :
    (entries outer b).map Prod.fst = (definedNames b).eraseDups := by
  induction b using List.reverseRecOn with
  | nil => rfl
  | append_singleton b s ih =>
    rw [entries_append, definedNames_append, List.eraseDups_append, ← ih, Stmt.addEntry]
    cases hs : s.defines? with
    | none => simp
    | some d =>
      have hmem : d.1 ∈ (entries outer b).map Prod.fst ↔ d.1 ∈ definedNames b := by rw [ih, List.mem_eraseDups]
      by_cases hx : d.1 ∈ definedNames b
      · simp [List.removeAll, hx, if_pos (hmem.mpr hx)]
      · have hnew : [d.1].eraseDups = [d.1] := rfl
        simp [List.removeAll, hx, if_neg (mt hmem.mp hx), hnew]

theorem mem_map_fst_entries : x ∈ (entries outer b).map Prod.fst ↔ x ∈ definedNames b := by
  rw [map_fst_entries, List.mem_eraseDups]

/-- A statement that defines nothing adds no variable, and neither does a later definition. -/
theorem entries_append_of_old (h : ∀ x e, s.defines? = some (x, e) → x ∈ definedNames before) :
    entries outer (before ++ [s]) = entries outer before := by
  rw [entries_append, Stmt.addEntry]
  cases hs : s.defines? with
  | none => rfl
  | some d => exact if_pos (mem_map_fst_entries.mpr (h d.1 d.2 hs))

/-- A first definition adds its name with the type of its value. -/
theorem entries_append_of_first (hs : s.defines? = some (x, e)) (hx : x ∉ definedNames before) :
    entries outer (before ++ [s]) = entries outer before ++ [(x, (e.infer (look outer before)).1)] := by
  rw [entries_append, Stmt.addEntry, hs]
  exact if_neg (mt mem_map_fst_entries.mp hx)

/-- Further statements take no variable away. -/
theorem entries_subset (outer : String → Option Ty) (before after : Block) :
    entries outer before ⊆ entries outer (before ++ after) := by
  induction after using List.reverseRecOn with
  | nil => simp
  | append_singleton after s ih =>
    rw [← List.append_assoc, entries_append, Stmt.addEntry]
    split
    · exact ih
    · split_ifs
      · exact ih
      · exact List.Subset.trans ih (List.subset_append_left ..)

/-- A name that is defined for the first time has the type of the value there. -/
theorem mem_entries_of_first {after : Block} (hs : s.defines? = some (x, e)) (hx : x ∉ definedNames before) :
    (x, (e.infer (look outer before)).1) ∈ entries outer (before ++ s :: after) := by
  have hsubset := entries_subset outer (before ++ [s]) after
  rw [entries_append_of_first hs hx, List.append_assoc, List.singleton_append] at hsubset
  exact hsubset (by simp)

end Block

/-! ## The blocks of a program -/

/-- Variables as the table lists them at a depth. -/
def Definition.listed (depth : Nat) (entries : List (String × Ty)) : List Definition :=
  entries.map fun (x, τ) => ⟨depth, x, τ⟩

theorem Definition.depth_of_mem_listed {depth : Nat} {entries : List (String × Ty)} {d : Definition}
    (hd : d ∈ listed depth entries) : d.depth = depth := by
  obtain ⟨entry, -, rfl⟩ := List.mem_map.mp hd
  rfl

/-- A block of a program: its depth, the types of the names from outside where it stands, and its statements. -/
structure Site where
  depth : Nat
  outer : String → Option Ty
  body : Block

def Site.definitions (site : Site) : List Definition :=
  Definition.listed site.depth (Block.entries site.outer site.body)

mutual

/-- The blocks in a statement of a block at this depth, in their order. -/
def Stmt.sites (depth : Nat) (look : String → Option Ty) : Stmt → List Site
  | .assign _ _ _ => []
  | .branch _ => []
  | .cond _ body none => ⟨depth + 1, look, body⟩ :: Block.sitesIn (depth + 1) look [] body
  | .cond _ body (some alternative) =>
    (⟨depth + 1, look, body⟩ :: Block.sitesIn (depth + 1) look [] body) ++
      ⟨depth + 1, look, alternative⟩ :: Block.sitesIn (depth + 1) look [] alternative
  | .switch _ arms => Arm.sites (depth + 2) look arms

/-- The blocks in statements of a block, behind those `before` them. -/
def Block.sitesIn (depth : Nat) (outer : String → Option Ty) (before : Block) : Block → List Site
  | [] => []
  | s :: ss => s.sites depth (Block.look outer before) ++ Block.sitesIn depth outer (before ++ [s]) ss

/-- The bodies of arms, each with the blocks in it. -/
def Arm.sites (depth : Nat) (look : String → Option Ty) : List (Arm Stmt) → List Site
  | [] => []
  | ⟨_, body⟩ :: arms => (⟨depth, look, body⟩ :: Block.sitesIn depth look [] body) ++ Arm.sites depth look arms

end

/-- A block and the blocks in it. -/
def Block.sites (depth : Nat) (outer : String → Option Ty) (b : Block) : List Site :=
  ⟨depth, outer, b⟩ :: Block.sitesIn depth outer [] b

def Program.sites (p : Program) : List Site :=
  p.procedures.flatMap fun q => Block.sites 0 (fun _ => none) q.body

/-! ## Later definitions -/

/-- The name that a statement defines once more behind statements of the same block. -/
def Stmt.redefines (before : Block) (s : Stmt) : List String :=
  ((s.defines?.map Prod.fst).filter (· ∈ Block.definedNames before)).toList

mutual

/-- The names that are defined once more in the blocks of a statement, in their order. -/
def Stmt.redefined : Stmt → List String
  | .assign _ _ _ => []
  | .branch _ => []
  | .cond _ body none => Block.redefined [] body
  | .cond _ body (some alternative) => Block.redefined [] body ++ Block.redefined [] alternative
  | .switch _ arms => Arm.redefined arms

/-- The names that statements of a block define once more, or the blocks in these statements, in their order. -/
def Block.redefined (before : Block) : Block → List String
  | [] => []
  | s :: ss => s.redefines before ++ s.redefined ++ Block.redefined (before ++ [s]) ss

def Arm.redefined : List (Arm Stmt) → List String
  | [] => []
  | ⟨_, body⟩ :: arms => Block.redefined [] body ++ Arm.redefined arms

end

def Program.redefined (p : Program) : List String :=
  p.procedures.flatMap fun q => Block.redefined [] q.body

/-- A name is defined once more in its block. -/
def Fault.isRedefinition (f : Fault) : Bool :=
  match f.cause with
  | .alreadyDefined _ => true
  | _ => false

def Fault.redefinition (x : String) : Fault :=
  ⟨.alreadyDefined x, none⟩

/-! ## Depths -/

section Depths

variable {depth : Nat} {outer look : String → Option Ty}

theorem Stmt.sites_cond (e : Expr) (body : Block) :
    (Stmt.cond e body none).sites depth look = Block.sites (depth + 1) look body := by
  rw [Stmt.sites, Block.sites]

theorem Stmt.sites_condElse (e : Expr) (body alternative : Block) :
    (Stmt.cond e body (some alternative)).sites depth look =
      Block.sites (depth + 1) look body ++ Block.sites (depth + 1) look alternative := by
  rw [Stmt.sites, Block.sites, Block.sites]

theorem Arm.sites_cons (arm : Arm Stmt) (arms : List (Arm Stmt)) :
    Arm.sites depth look (arm :: arms) = Block.sites depth look arm.body ++ Arm.sites depth look arms := by
  rw [Arm.sites, Block.sites]

theorem Block.le_depth_sites {b : Block} (h : ∀ site ∈ Block.sitesIn depth outer [] b, depth < site.depth) :
    ∀ site ∈ Block.sites depth outer b, depth ≤ site.depth :=
  List.forall_mem_cons.mpr ⟨Nat.le_refl depth, fun site hsite => Nat.le_of_lt (h site hsite)⟩

end Depths

mutual

/-- The blocks in a statement stand deeper than it. -/
theorem Stmt.lt_depth_sites {depth : Nat} {look : String → Option Ty} :
    ∀ s : Stmt, ∀ site ∈ s.sites depth look, depth < site.depth
  | .assign _ _ _ => by simp [Stmt.sites]
  | .branch _ => by simp [Stmt.sites]
  | .cond e body none => by
    rw [Stmt.sites_cond]
    exact Block.le_depth_sites (Block.lt_depth_sitesIn body)
  | .cond e body (some alternative) => by
    rw [Stmt.sites_condElse]
    exact List.forall_mem_append.mpr
      ⟨Block.le_depth_sites (Block.lt_depth_sitesIn body), Block.le_depth_sites (Block.lt_depth_sitesIn alternative)⟩
  | .switch e arms => by
    rw [Stmt.sites]
    exact fun site hsite => Nat.lt_of_succ_lt (Arm.le_depth_sites arms site hsite)

theorem Block.lt_depth_sitesIn {depth : Nat} {outer : String → Option Ty} {before : Block} :
    ∀ b : Block, ∀ site ∈ Block.sitesIn depth outer before b, depth < site.depth
  | [] => by simp [Block.sitesIn]
  | s :: ss => by
    rw [Block.sitesIn]
    exact List.forall_mem_append.mpr ⟨Stmt.lt_depth_sites s, Block.lt_depth_sitesIn ss⟩

theorem Arm.le_depth_sites {depth : Nat} {look : String → Option Ty} :
    ∀ arms : List (Arm Stmt), ∀ site ∈ Arm.sites depth look arms, depth ≤ site.depth
  | [] => by simp [Arm.sites]
  | ⟨guard, body⟩ :: arms => by
    rw [Arm.sites_cons]
    exact List.forall_mem_append.mpr ⟨Block.le_depth_sites (Block.lt_depth_sitesIn body), Arm.le_depth_sites arms⟩

end

end AddressLines
