import AddressLines.Proofs.Code.Outline
import AddressLines.Proofs.Code.Text

/-!
# Reading code back

Two plain programs have the same text exactly when they have the same package name and the same outlines, so nothing
but sugar is lost when a program is written out.

Lines are read back from the front. A step is told by its first line, and the steps of a block end at the first
line that begins with `END`, which no step does. So a block can be read without knowing what follows it.
-/

namespace AddressLines

open Text

/-! ## First lines -/

theorem ampersand_notMem {x : String} (hx : Token.isIdentifier x = true) : '&' ∉ x.toList :=
  Token.notMem_of_isIdentifier hx (by decide)

/-- The second ampersand ends the name. -/
theorem codeName_append_inj {x y s t : String} (hx : Token.isIdentifier x = true) (hy : Token.isIdentifier y = true)
    (h : codeName x ++ s = codeName y ++ t) : x = y ∧ s = t := by
  have hlist : x.toList ++ '&' :: s.toList = y.toList ++ '&' :: t.toList := by
    simpa [codeName] using congrArg String.toList h
  obtain ⟨hxy, hst⟩ := append_cons_inj (ampersand_notMem hx) (ampersand_notMem hy) hlist
  exact ⟨String.toList_inj.mp hxy, String.toList_inj.mp hst⟩

theorem codeName_inj {x y : String} (hx : Token.isIdentifier x = true) (hy : Token.isIdentifier y = true)
    (h : codeName x = codeName y) : x = y := by
  have happend : codeName x ++ "" = codeName y ++ "" := by rw [h]
  exact (codeName_append_inj hx hy happend).1

theorem assignLines_eq (a : Address) (x : String) (e : Expr) :
    assignLines a x e = ⟨'Q', a, codeName x ++ (if e.isLiteral then "" else " := " ++ e.code)⟩ ::
      (if e.isLiteral then [⟨'A', a, e.code⟩] else []) := by
  cases e <;> simp [assignLines, Expr.isLiteral, Expr.code, String.append_assoc]

/-- The lines behind the body of a conditional. -/
def closingLines (a : Address) : Option (List Step) → List Line
  | none => [⟨'Q', a, "END"⟩]
  | some alternative =>
    ⟨'Q', a, "END ELSE BEGIN"⟩ :: (linesFrom a.next alternative ++ [⟨'Q', a.next.skip alternative.length, "END"⟩])

theorem lines_choose (a : Address) (c : Expr) (body : List Step) (alternative : Option (List Step)) :
    (Step.choose c body alternative).lines a = ⟨'Q', a, "IF " ++ c.code ++ " THEN BEGIN"⟩ ::
      (linesFrom a.child body ++ closingLines (a.child.skip body.length) alternative) := by
  cases alternative <;> simp [Step.lines, closingLines]

/-- The character that what is said of a step begins with. -/
def Step.initial : Step → Char
  | .assign .. => '&'
  | .branch .breaks => 'b'
  | .branch .continues => 'c'
  | .branch .returns => 'r'
  | .choose .. => 'I'

theorem lines_initial (s : Step) (a : Address) :
    ∃ l ls, s.lines a = l :: ls ∧ l.content.toList.head? = some s.initial := by
  match s with
  | .assign x e =>
    rw [Step.lines, assignLines_eq]
    exact ⟨_, _, rfl, by simp [codeName, Step.initial]⟩
  | .branch word =>
    rw [Step.lines]
    exact ⟨_, _, rfl, by cases word <;> simp [Branch.keyword, Step.initial]⟩
  | .choose c body alternative =>
    rw [lines_choose]
    exact ⟨_, _, rfl, by simp [Step.initial]⟩

theorem initial_eq_of_lines_eq {s t : Step} {a b : Address} {r r' : List Line}
    (h : s.lines a ++ r = t.lines b ++ r') : s.initial = t.initial := by
  obtain ⟨l, ls, hs, hl⟩ := lines_initial s a
  obtain ⟨m, ms, ht, hm⟩ := lines_initial t b
  rw [hs, ht] at h
  obtain rfl : l = m := by simpa using (List.cons.inj h).1
  simpa [hl] using hm

/-- The lines begin with one that closes a block or a procedure. -/
def Line.Closing (r : List Line) : Prop :=
  ∃ l ls, r = l :: ls ∧ l.content.toList.head? = some 'E'

theorem lines_append_ne_of_closing {s : Step} {a : Address} {r r' : List Line} (hr : Line.Closing r) :
    s.lines a ++ r' ≠ r := by
  obtain ⟨l, ls, rfl, hl⟩ := hr
  obtain ⟨m, ms, hs, hm⟩ := lines_initial s a
  rw [hs]
  intro h
  obtain rfl : m = l := (List.cons.inj h).1
  rw [hl] at hm
  match s with
  | .assign .. => simp [Step.initial] at hm
  | .branch word => cases word <;> simp [Step.initial] at hm
  | .choose .. => simp [Step.initial] at hm

theorem closing_closingLines (a : Address) (alternative : Option (List Step)) (r : List Line) :
    Line.Closing (closingLines a alternative ++ r) := by
  cases alternative with
  | none => exact ⟨_, _, rfl, by simp⟩
  | some => exact ⟨_, _, rfl, by simp⟩

/-! ## Reading back -/

theorem assignLines_append_inj {x y : String} {e f : Expr} {a b : Address} {r r' : List Line}
    (hx : Token.isIdentifier x = true) (hy : Token.isIdentifier y = true)
    (h : assignLines a x e ++ r = assignLines b y f ++ r') :
    x = y ∧ e.isLiteral = f.isLiteral ∧ e.code = f.code ∧ r = r' := by
  simp only [assignLines_eq, List.cons_append, List.cons.injEq, Line.mk.injEq] at h
  obtain ⟨⟨-, -, hcontent⟩, hanswer⟩ := h
  obtain ⟨hname, hvalue⟩ := codeName_append_inj hx hy hcontent
  -- A literal leaves nothing beside the name, so the kinds of the two values agree.
  cases he : e.isLiteral <;> cases hf : f.isLiteral
  · simp only [he, hf, Bool.false_eq_true, if_false, List.nil_append] at hvalue hanswer
    exact ⟨hname, rfl, by simpa using hvalue, hanswer⟩
  · simp [he, hf, ← String.toList_inj] at hvalue
  · simp [he, hf, ← String.toList_inj] at hvalue
  · simp only [he, hf, if_true, List.cons_append, List.nil_append, List.cons.injEq, Line.mk.injEq] at hanswer
    exact ⟨hname, rfl, hanswer.1.2.2, hanswer.2⟩

theorem isPlain_choose {c : Expr} {body : List Step} {alternative : Option (List Step)} :
    (Step.choose c body alternative).isPlain = true ↔
      c.isPlain = true ∧ Step.arePlain body = true ∧ alternative.all Step.arePlain = true := by
  cases alternative <;> simp [Step.isPlain, and_assoc]

mutual

/-- Equal lines come from steps with the same outline, whatever follows. -/
theorem lines_append_inj : ∀ (s t : Step) {a b : Address} {r r' : List Line}, s.isPlain = true → t.isPlain = true →
    s.lines a ++ r = t.lines b ++ r' → s.outline = t.outline ∧ r = r'
  | .assign x e, t, a, b, r, r', hs, ht, h => by
    have hinitial := initial_eq_of_lines_eq h
    cases t with
    | assign y f =>
      obtain ⟨hx, -⟩ : Token.isIdentifier x = true ∧ e.isPlain = true := by simpa [Step.isPlain] using hs
      obtain ⟨hy, -⟩ : Token.isIdentifier y = true ∧ f.isPlain = true := by simpa [Step.isPlain] using ht
      obtain ⟨hname, hliteral, hvalue, hrest⟩ := assignLines_append_inj hx hy (by simpa [Step.lines] using h)
      exact ⟨by simp [hname, hliteral, hvalue], hrest⟩
    | branch word => cases word <;> simp [Step.initial] at hinitial
    | choose => simp [Step.initial] at hinitial
  | .branch word, t, a, b, r, r', hs, ht, h => by
    have hinitial := initial_eq_of_lines_eq h
    cases t with
    | assign => cases word <;> simp [Step.initial] at hinitial
    | branch word' =>
      have hword : word = word' := by cases word <;> cases word' <;> simp_all [Step.initial]
      simp only [Step.lines, List.cons_append, List.nil_append, List.cons.injEq] at h
      exact ⟨by rw [hword], h.2⟩
    | choose => cases word <;> simp [Step.initial] at hinitial
  | .choose c body alternative, t, a, b, r, r', hs, ht, h => by
    have hinitial := initial_eq_of_lines_eq h
    cases t with
    | assign => simp [Step.initial] at hinitial
    | branch word => cases word <;> simp [Step.initial] at hinitial
    | choose c' body' alternative' =>
      obtain ⟨-, hbody, halternative⟩ := isPlain_choose.mp hs
      obtain ⟨-, hbody', halternative'⟩ := isPlain_choose.mp ht
      simp only [lines_choose, List.cons_append, List.append_assoc, List.cons.injEq, Line.mk.injEq] at h
      obtain ⟨⟨-, -, hcontent⟩, hlines⟩ := h
      obtain ⟨houtlines, hclosing⟩ := linesFrom_append_inj body body' hbody hbody'
        (closing_closingLines _ alternative r) (closing_closingLines _ alternative' r') hlines
      obtain ⟨halternatives, hrest⟩ :=
        closingLines_append_inj alternative alternative' halternative halternative' hclosing
      have hcode : c.code = c'.code := by simpa using hcontent
      exact ⟨by rw [Step.outline_choose, Step.outline_choose, hcode, houtlines, halternatives], hrest⟩

theorem linesFrom_append_inj : ∀ (ss ts : List Step) {a b : Address} {r r' : List Line}, Step.arePlain ss = true →
    Step.arePlain ts = true → Line.Closing r → Line.Closing r' → linesFrom a ss ++ r = linesFrom b ts ++ r' →
    Step.outlines ss = Step.outlines ts ∧ r = r'
  | [], [], a, b, r, r', _, _, _, _, h => by
    simpa [linesFrom, Step.outlines] using h
  | [], t :: ts, a, b, r, r', _, _, hr, _, h => by
    rw [linesFrom, linesFrom, List.nil_append, List.append_assoc] at h
    exact absurd h.symm (lines_append_ne_of_closing hr)
  | s :: ss, [], a, b, r, r', _, _, _, hr', h => by
    rw [linesFrom, linesFrom, List.nil_append, List.append_assoc] at h
    exact absurd h (lines_append_ne_of_closing hr')
  | s :: ss, t :: ts, a, b, r, r', hss, hts, hr, hr', h => by
    obtain ⟨hs, hss⟩ : s.isPlain = true ∧ Step.arePlain ss = true := by simpa [Step.arePlain] using hss
    obtain ⟨ht, hts⟩ : t.isPlain = true ∧ Step.arePlain ts = true := by simpa [Step.arePlain] using hts
    rw [linesFrom, linesFrom, List.append_assoc, List.append_assoc] at h
    obtain ⟨houtline, htail⟩ := lines_append_inj s t hs ht h
    obtain ⟨houtlines, hrest⟩ := linesFrom_append_inj ss ts hss hts hr hr' htail
    exact ⟨by rw [Step.outlines, Step.outlines, houtline, houtlines], hrest⟩

theorem closingLines_append_inj : ∀ (alternative alternative' : Option (List Step)) {a b : Address} {r r' : List Line},
    alternative.all Step.arePlain = true → alternative'.all Step.arePlain = true →
    closingLines a alternative ++ r = closingLines b alternative' ++ r' →
    alternative.map Step.outlines = alternative'.map Step.outlines ∧ r = r'
  | none, none, a, b, r, r', _, _, h => by
    simp only [closingLines, List.cons_append, List.nil_append, List.cons.injEq] at h
    exact ⟨rfl, h.2⟩
  | none, some _, a, b, r, r', _, _, h => by
    simp [closingLines] at h
  | some _, none, a, b, r, r', _, _, h => by
    simp [closingLines] at h
  | some ss, some ts, a, b, r, r', hss, hts, h => by
    simp only [closingLines, List.cons_append, List.append_assoc, List.nil_append, List.cons.injEq] at h
    obtain ⟨houtlines, hend⟩ := linesFrom_append_inj ss ts (by simpa using hss) (by simpa using hts)
      ⟨_, _, rfl, by simp⟩ ⟨_, _, rfl, by simp⟩ h.2
    simp only [List.cons.injEq] at hend
    exact ⟨by simp [houtlines], hend.2⟩

end

theorem procedureLines_inj : ∀ (ps qs : List Procedure) {a b : Address},
    (∀ q ∈ ps, Token.isIdentifier q.name = true ∧ Block.isPlain q.body = true) →
    (∀ q ∈ qs, Token.isIdentifier q.name = true ∧ Block.isPlain q.body = true) →
    procedureLines a ps = procedureLines b qs → ps.map Procedure.outline = qs.map Procedure.outline
  | [], [], _, _, _, _, _ => rfl
  | [], _ :: _, _, _, _, _, h => by simp [procedureLines, Procedure.lines] at h
  | _ :: _, [], _, _, _, _, h => by simp [procedureLines, Procedure.lines] at h
  | p :: ps, q :: qs, a, b, hps, hqs, h => by
    obtain ⟨⟨hp, hpbody⟩, hps⟩ := List.forall_mem_cons.mp hps
    obtain ⟨⟨hq, hqbody⟩, hqs⟩ := List.forall_mem_cons.mp hqs
    simp only [procedureLines, Procedure.lines, List.cons_append, List.append_assoc, List.nil_append, List.cons.injEq,
      Line.mk.injEq] at h
    obtain ⟨⟨-, -, hopening⟩, hlines⟩ := h
    have hname : p.name = q.name := codeName_inj hp hq (by simpa using hopening)
    obtain ⟨houtlines, hend⟩ := linesFrom_append_inj (steps p.body) (steps q.body) (arePlain_steps _ hpbody)
      (arePlain_steps _ hqbody) ⟨_, _, rfl, by simp⟩ ⟨_, _, rfl, by simp⟩ hlines
    have hrest := procedureLines_inj ps qs hps hqs (List.cons.inj hend).2
    rw [List.map_cons, List.map_cons, hrest, Procedure.outline, Procedure.outline, hname, outline_chained,
      outline_chained, houtlines]

/-! ## Outlines determine lines -/

theorem length_outlines (ss : List Step) : (Step.outlines ss).length = ss.length := by
  induction ss with
  | nil => rfl
  | cons s ss ih => rw [Step.outlines, List.length_cons, List.length_cons, ih]

theorem length_eq_of_outlines_eq {ss ts : List Step} (h : Step.outlines ss = Step.outlines ts) :
    ss.length = ts.length := by
  rw [← length_outlines ss, ← length_outlines ts, h]

mutual

theorem lines_eq_of_outline_eq : ∀ (s t : Step) (a : Address), s.outline = t.outline → s.lines a = t.lines a
  | .assign x e, t, a, h => by
    cases t with
    | assign y f =>
      obtain ⟨rfl, hliteral, hvalue⟩ : x = y ∧ e.isLiteral = f.isLiteral ∧ e.code = f.code := by
        simpa using h
      rw [Step.lines, Step.lines, assignLines_eq, assignLines_eq, hliteral, hvalue]
    | branch => simp at h
    | choose => simp at h
  | .branch word, t, a, h => by
    cases t with
    | assign => simp at h
    | branch word' =>
      obtain rfl : word = word' := by simpa using h
      rfl
    | choose => simp at h
  | .choose c body alternative, t, a, h => by
    cases t with
    | assign => simp at h
    | branch => simp at h
    | choose c' body' alternative' =>
      simp only [Step.outline_choose, Outline.choose.injEq] at h
      obtain ⟨hcode, hbody, halternative⟩ := h
      rw [lines_choose, lines_choose, hcode, linesFrom_eq_of_outlines_eq body body' a.child hbody,
        length_eq_of_outlines_eq hbody, closingLines_eq_of_outlines_eq alternative alternative' _ halternative]

theorem linesFrom_eq_of_outlines_eq : ∀ (ss ts : List Step) (a : Address), Step.outlines ss = Step.outlines ts →
    linesFrom a ss = linesFrom a ts
  | [], [], _, _ => rfl
  | [], _ :: _, _, h => by simp [Step.outlines] at h
  | _ :: _, [], _, h => by simp [Step.outlines] at h
  | s :: ss, t :: ts, a, h => by
    rw [Step.outlines, Step.outlines, List.cons.injEq] at h
    rw [linesFrom, linesFrom, lines_eq_of_outline_eq s t a h.1, linesFrom_eq_of_outlines_eq ss ts a.next h.2]

theorem closingLines_eq_of_outlines_eq : ∀ (alternative alternative' : Option (List Step)) (a : Address),
    alternative.map Step.outlines = alternative'.map Step.outlines →
    closingLines a alternative = closingLines a alternative'
  | none, none, _, _ => rfl
  | none, some _, _, h => by simp at h
  | some _, none, _, h => by simp at h
  | some ss, some ts, a, h => by
    have houtlines : Step.outlines ss = Step.outlines ts := by simpa using h
    rw [closingLines, closingLines, linesFrom_eq_of_outlines_eq ss ts a.next houtlines,
      length_eq_of_outlines_eq houtlines]

end

theorem procedureLines_eq_of_outline_eq : ∀ (ps qs : List Procedure) (a : Address),
    ps.map Procedure.outline = qs.map Procedure.outline → procedureLines a ps = procedureLines a qs
  | [], [], _, _ => rfl
  | [], _ :: _, _, h => by simp at h
  | _ :: _, [], _, h => by simp at h
  | p :: ps, q :: qs, a, h => by
    simp only [List.map_cons, List.cons.injEq, Procedure.outline, Prod.mk.injEq, outline_chained] at h
    obtain ⟨⟨hname, hbody⟩, hrest⟩ := h
    rw [procedureLines, procedureLines, Procedure.lines, Procedure.lines, hname,
      linesFrom_eq_of_outlines_eq _ _ a.child hbody, procedureLines_eq_of_outline_eq ps qs a.next hrest]

/-! ## Programs -/

namespace Program

/-- Programs whose texts fall into rows have the same rows if they have the same text. -/
theorem rows_eq_of_code_eq {p q : Program} (hp : p.isPlain = true) (hq : q.isPlain = true)
    (hps : ∀ s ∈ p.strings, isInline s = true) (hqs : ∀ s ∈ q.strings, isInline s = true) (h : p.code = q.code) :
    p.rows = q.rows := by
  have hended : p.rows.map ended = q.rows.map ended := by
    rw [← (lines_code_iff hp).mpr hps, ← (lines_code_iff hq).mpr hqs, h]
  refine (List.map_inj_right ?_).mp hended
  intro l m hlm
  exact List.append_cancel_right hlm

/-- Plain programs without line feeds in their literals have the same text exactly when they have the same package
name and the same procedures, up to sugar. -/
theorem code_eq_iff_outline_eq {p q : Program} (hp : p.isPlain = true) (hq : q.isPlain = true)
    (hps : ∀ s ∈ p.strings, isInline s = true) (hqs : ∀ s ∈ q.strings, isInline s = true) :
    p.code = q.code ↔
      p.packageName = q.packageName ∧ p.procedures.map Procedure.outline = q.procedures.map Procedure.outline := by
  constructor
  · intro h
    have hrows := rows_eq_of_code_eq hp hq hps hqs h
    rw [rows, rows, List.cons.injEq] at hrows
    obtain ⟨hheader, hrows⟩ := hrows
    have hlines : p.lines = q.lines :=
      Line.eq_of_map_row_eq (fun _ => isMarked_of_mem_lines) (fun _ => isMarked_of_mem_lines) hrows
    have hname : p.packageName = q.packageName := by
      simpa [String.toList_inj] using hheader
    simp only [isPlain, Bool.and_eq_true, List.all_eq_true] at hp hq
    exact ⟨hname, procedureLines_inj p.procedures q.procedures hp.2 hq.2 hlines⟩
  · intro h
    obtain ⟨hname, houtlines⟩ := h
    have hlines : p.lines = q.lines := procedureLines_eq_of_outline_eq p.procedures q.procedures ⟨[1, 1]⟩ houtlines
    rw [packageName, packageName] at hname
    rw [code, code, header, header, hname, hlines]

/-- A procedure with a switch, a definition and an empty `else`. -/
def sugared : Program :=
  { package := some "main"
    procedures := [⟨"f", [
      .switch .absent [⟨.name "a", [.branch .breaks]⟩, ⟨.absent, [.assign "x" true (.literal (.string "b"))]⟩],
      .cond (.name "c") [] (some [])]⟩] }

/-- The same procedure written without them, and with a switch that has no arms. -/
def unsugared : Program :=
  { package := some "main"
    procedures := [⟨"f", [
      .cond (.name "a") [.branch .breaks]
        (some [.cond (.literal (.boolean true)) [.assign "x" false (.literal (.string "b"))] none]),
      .switch (.name "c") [],
      .cond (.name "c") [] none]⟩] }

theorem code_eq_iff_outline_eq_sugared :
    sugared.isPlain = true ∧ unsugared.isPlain = true ∧ sugared.strings = ["b"] ∧ unsugared.strings = ["b"] ∧
      isInline "b" = true ∧ sugared.code = unsugared.code ∧ sugared.packageName = unsugared.packageName ∧
      sugared.procedures.map Procedure.outline = unsugared.procedures.map Procedure.outline :=
  have hcode : sugared.code = unsugared.code := by rfl
  ⟨by decide, by decide, rfl, rfl, by decide, hcode,
    (code_eq_iff_outline_eq (by decide) (by decide) (by decide) (by decide)).mp hcode⟩

end Program

end AddressLines
