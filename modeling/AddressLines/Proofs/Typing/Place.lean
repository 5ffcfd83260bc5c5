import AddressLines.Proofs.Typing.System

/-!
# Places

How the type of a name changes from one place to the next, and the rules of the type system read backwards. A block
is well typed when its first statement is and the others are behind it.
-/

namespace AddressLines

variable {Γ : Place} {before b : Block} {s : Stmt} {x : String} {e : Expr} {τ : Ty}

/-! ## Names at a place -/

theorem Block.mem_defined_append : x ∈ Block.defined (b ++ [s]) ↔ x ∈ Block.defined b ∨ s.defined? = some x := by
  rw [Block.defined, List.filterMap_append, List.mem_append]
  simp [Block.defined]

theorem Expr.hasType_name_iff : (Expr.name x).HasType (b :: Γ) τ ↔
    (∃ before e after, b = before ++ .assign x true e :: after ∧ e.HasType (before :: Γ) τ) ∨
      (x ∉ Block.defined b ∧ (Expr.name x).HasType Γ τ) := by
  constructor
  · intro h
    cases h with
    | here hb he => exact .inl ⟨_, _, _, hb, he⟩
    | outer hx h => exact .inr ⟨hx, h⟩
  · rintro (⟨before, e, after, hb, he⟩ | ⟨hx, h⟩)
    · exact .here hb he
    · exact .outer hx h

/-- A statement of a block with one more statement at its end is that one or stood there before. -/
theorem Block.append_singleton_eq {b before after : Block} {s t : Stmt} (h : b ++ [s] = before ++ t :: after) :
    (b = before ∧ s = t) ∨ ∃ after', b = before ++ t :: after' := by
  rcases List.eq_nil_or_concat after with rfl | ⟨after', s', rfl⟩
  · exact .inl (by simpa using h)
  · rw [List.concat_eq_append, ← List.cons_append, ← List.append_assoc] at h
    exact .inr ⟨after', (List.append_inj' h rfl).1⟩

/-- A block that is not yet begun adds nothing to its place. -/
theorem Expr.hasType_name_nil : (Expr.name x).HasType ([] :: Γ) τ ↔ (Expr.name x).HasType Γ τ := by
  simp [hasType_name_iff, Block.defined]

/-- A statement that does not define a name leaves the type of that name. -/
theorem Expr.hasType_name_append (hs : s.defined? ≠ some x) :
    (Expr.name x).HasType ((b ++ [s]) :: Γ) τ ↔ (Expr.name x).HasType (b :: Γ) τ := by
  have hdefined : x ∉ Block.defined (b ++ [s]) ↔ x ∉ Block.defined b := by
    simp [Block.mem_defined_append, hs]
  simp only [hasType_name_iff, hdefined]
  refine or_congr_left ⟨?_, ?_⟩
  · rintro ⟨before, e, after, hb, he⟩
    obtain ⟨-, rfl⟩ | ⟨after, hb⟩ := Block.append_singleton_eq hb
    · exact absurd rfl hs
    · exact ⟨before, e, after, hb, he⟩
  · rintro ⟨before, e, after, rfl, he⟩
    exact ⟨before, e, after ++ [s], by simp, he⟩

/-- A first definition gives the name the type of its value. -/
theorem Expr.hasType_name_define (hx : x ∉ Block.defined b) :
    (Expr.name x).HasType ((b ++ [.assign x true e]) :: Γ) τ ↔ e.HasType (b :: Γ) τ := by
  rw [hasType_name_iff]
  constructor
  · rintro (⟨before, e', after, hb, he⟩ | ⟨hnot, -⟩)
    · obtain ⟨rfl, hs⟩ | ⟨after, rfl⟩ := Block.append_singleton_eq hb
      · obtain rfl : e = e' := by simpa using hs
        exact he
      · exact absurd (by simp [Block.defined, Stmt.defined?]) hx
    · exact absurd (Block.mem_defined_append.mpr (.inr rfl)) hnot
  · intro he
    exact .inl ⟨b, e, [], rfl, he⟩

/-! ## Blocks, statement by statement -/

/-- The statements of a block from some point on are well typed behind those `before` it. -/
structure Block.Continues (Γ : Place) (before b : Block) : Prop where
  nodup : (Block.defined b).Nodup
  fresh : ∀ x ∈ Block.defined b, x ∉ Block.defined before
  wellTyped : ∀ mid s after, b = mid ++ s :: after → s.WellTyped ((before ++ mid) :: Γ)

theorem Block.wellTyped_iff_continues : Block.WellTyped Γ b ↔ Block.Continues Γ [] b := by
  constructor
  · rintro ⟨hnodup, hs⟩
    exact ⟨hnodup, by simp [Block.defined], hs⟩
  · intro h
    exact .mk h.nodup h.wellTyped

theorem Block.continues_nil : Block.Continues Γ before [] :=
  ⟨List.nodup_nil, by simp [Block.defined], by simp⟩

theorem Block.mem_defined_cons : x ∈ Block.defined (s :: b) ↔ s.defined? = some x ∨ x ∈ Block.defined b := by
  simp [Block.defined]

theorem Block.nodup_defined_cons : (Block.defined (s :: b)).Nodup ↔
    (∀ x, s.defined? = some x → x ∉ Block.defined b) ∧ (Block.defined b).Nodup := by
  cases hs : s.defined? <;> simp [Block.defined, hs]

theorem Block.continues_cons : Block.Continues Γ before (s :: b) ↔
    s.WellTyped (before :: Γ) ∧ (∀ x, s.defined? = some x → x ∉ Block.defined before) ∧
      Block.Continues Γ (before ++ [s]) b := by
  constructor
  · rintro ⟨hnodup, hfresh, hs⟩
    obtain ⟨hnot, hnodup⟩ := nodup_defined_cons.mp hnodup
    refine ⟨by simpa using hs [] s b rfl, fun x hx => hfresh x (mem_defined_cons.mpr (.inl hx)), hnodup, ?_, ?_⟩
    · intro x hx
      have hbefore := hfresh x (mem_defined_cons.mpr (.inr hx))
      have hlast : s.defined? ≠ some x := fun h => hnot x h hx
      simp [mem_defined_append, hbefore, hlast]
    · rintro mid t after rfl
      simpa using hs (s :: mid) t after rfl
  · rintro ⟨hwell, hnot, hnodup, hfresh, hs⟩
    refine ⟨nodup_defined_cons.mpr ⟨fun x hx hb => ?_, hnodup⟩, fun x hx => ?_, ?_⟩
    · exact hfresh x hb (mem_defined_append.mpr (.inr hx))
    · rcases mem_defined_cons.mp hx with hx | hx
      · exact hnot x hx
      · exact fun hb => hfresh x hx (mem_defined_append.mpr (.inl hb))
    · rintro mid t after heq
      cases mid with
      | nil =>
        obtain ⟨rfl, -⟩ : s = t ∧ b = after := by simpa using heq
        simpa using hwell
      | cons s' mid =>
        obtain ⟨rfl, rfl⟩ : s = s' ∧ b = mid ++ t :: after := by simpa using heq
        simpa using hs mid t after rfl

/-! ## Statements, form by form -/

theorem Stmt.wellTyped_define_iff : (Stmt.assign x true e).WellTyped Γ ↔ ∃ τ, e.HasType Γ τ := by
  constructor
  · intro h
    cases h with
    | define he => exact ⟨_, he⟩
  · rintro ⟨τ, he⟩
    exact .define he

theorem Stmt.wellTyped_assign_iff :
    (Stmt.assign x false e).WellTyped Γ ↔ ∃ τ, (Expr.name x).HasType Γ τ ∧ e.HasType Γ τ := by
  constructor
  · intro h
    cases h with
    | assign hx he => exact ⟨_, hx, he⟩
  · rintro ⟨τ, hx, he⟩
    exact .assign hx he

theorem Stmt.wellTyped_cond_iff :
    (Stmt.cond e b none).WellTyped Γ ↔ e.HasType Γ .boolean ∧ Block.WellTyped Γ b := by
  constructor
  · intro h
    cases h with
    | cond he hb => exact ⟨he, hb⟩
  · rintro ⟨he, hb⟩
    exact .cond he hb

theorem Stmt.wellTyped_condElse_iff {alternative : Block} : (Stmt.cond e b (some alternative)).WellTyped Γ ↔
    (e.HasType Γ .boolean ∧ Block.WellTyped Γ b) ∧ Block.WellTyped Γ alternative := by
  constructor
  · intro h
    cases h with
    | condElse he hb ha => exact ⟨⟨he, hb⟩, ha⟩
  · rintro ⟨⟨he, hb⟩, ha⟩
    exact .condElse he hb ha

/-- The arms of a switch are well typed for its subject. -/
def Arm.WellTyped (Γ : Place) (subject : Option Ty) (arms : List (Arm Stmt)) : Prop :=
  ∀ arm ∈ arms, (arm.guard = .absent ∨ arm.guard.Fits Γ subject) ∧ Block.WellTyped Γ arm.body

theorem Stmt.wellTyped_tagless_iff {arms : List (Arm Stmt)} :
    (Stmt.switch .absent arms).WellTyped Γ ↔ Arm.WellTyped Γ none arms := by
  constructor
  · intro h
    cases h with
    | tagless hguards hbodies => exact fun arm harm => ⟨hguards arm harm, hbodies arm harm⟩
    | tagged he => cases he
  · exact fun h => .tagless (fun arm harm => (h arm harm).1) (fun arm harm => (h arm harm).2)

theorem Stmt.wellTyped_tagged_iff {arms : List (Arm Stmt)} (he : e ≠ .absent) :
    (Stmt.switch e arms).WellTyped Γ ↔ ∃ σ, e.HasType Γ σ ∧ Arm.WellTyped Γ (some σ) arms := by
  constructor
  · intro h
    cases h with
    | tagless => exact absurd rfl he
    | tagged he hguards hbodies => exact ⟨_, he, fun arm harm => ⟨hguards arm harm, hbodies arm harm⟩⟩
  · exact fun ⟨_, he, h⟩ => .tagged he (fun arm harm => (h arm harm).1) (fun arm harm => (h arm harm).2)

end AddressLines
