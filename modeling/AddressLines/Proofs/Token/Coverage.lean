import AddressLines.Token.Scan

/-!
# What scanning covers

A source text is its tokens with stretches between them that hold nothing but blanks inside a line and comments
(`Covers`): no other character is ever passed over, and each token is exactly the text that its span cuts out.

Scanning goes from place to place. At a place where a token stands it takes the whole token, at a comment it takes
the whole comment, and it takes one character where no lexeme stands, which is then a blank.
-/

namespace AddressLines.Token

open Text

/-! ## Stretches between tokens -/

/-- Blanks and comments lead from the first text to the second, which is what is left behind them. A line comment
ends before a line end, a block comment with the first `*/` in it. -/
inductive Skips : List Char → List Char → Prop
  | nothing {cs : List Char} : Skips cs cs
  | blank {c : Char} {cs rest : List Char} :
    isBlank c = true → Text.isLineEnd c = false → Skips cs rest → Skips (c :: cs) rest
  | line {body cs rest : List Char} :
    (∀ c ∈ body, Text.isLineEnd c = false) → (∀ c ∈ cs.head?, Text.isLineEnd c = true) → Skips cs rest →
      Skips ('/' :: '/' :: (body ++ cs)) rest
  | block {body cs rest : List Char} :
    ¬ ['*', '/'] <:+: body → Skips cs rest → Skips ('/' :: '*' :: (body ++ '*' :: '/' :: cs)) rest
  /-- A comment that is never closed takes the rest of the text. -/
  | unclosed {body : List Char} : ¬ ['*', '/'] <:+: body → Skips ('/' :: '*' :: body) []

/-- The text, which stands at a byte offset of the file, is these tokens and what is skipped before, between and
behind them. -/
inductive Covers (file : String) : Nat → List Char → List Token → Prop
  | finish {offset : Nat} {cs : List Char} : Skips cs [] → Covers file offset cs []
  | token {offset : Nat} {gap text rest : List Char} {kind : Kind} {ts : List Token} :
    Skips (gap ++ (text ++ rest)) (text ++ rest) → text ≠ [] → kind ≠ .comment →
      Covers file (offset + byteLength gap + byteLength text) rest ts →
      Covers file offset (gap ++ (text ++ rest))
        (⟨kind, String.ofList text,
          ⟨file, offset + byteLength gap, offset + byteLength gap + byteLength text⟩⟩ :: ts)

variable {file : String} {offset : Nat} {before : Option Char} {kind : Kind} {c : Char} {cs rest : List Char}
  {ts : List Token} {t : Token}

/-- What is skipped at the front makes the first stretch longer. -/
theorem Covers.skip {gap : List Char} (hskip : ∀ rest, Skips cs rest → Skips (gap ++ cs) rest)
    (h : Covers file (offset + byteLength gap) cs ts) : Covers file offset (gap ++ cs) ts := by
  cases h with
  | finish hcs => exact .finish (hskip [] hcs)
  | @token _ gap' text rest kind ts hgap htext hkind hrest =>
    have hgap' : Skips ((gap ++ gap') ++ (text ++ rest)) (text ++ rest) := by
      rw [List.append_assoc]
      exact hskip _ hgap
    have hoffset : offset + byteLength (gap ++ gap') = offset + byteLength gap + byteLength gap' := by
      rw [byteLength_append, Nat.add_assoc]
    have hall := @Covers.token file offset (gap ++ gap') text rest kind ts hgap' htext hkind (hoffset ▸ hrest)
    rwa [hoffset, List.append_assoc] at hall

/-! ## Comments -/

/-- Where a block comment ends. -/
theorem closingLength_cases (cs : List Char) :
    (∃ body rest, cs = body ++ '*' :: '/' :: rest ∧ ¬ ['*', '/'] <:+: body ∧ closingLength cs = body.length + 2) ∨
      (¬ ['*', '/'] <:+: cs ∧ closingLength cs = cs.length) := by
  fun_induction closingLength cs with
  | case1 rest => exact .inl ⟨[], rest, rfl, by simp, rfl⟩
  | case2 c cs hnot ih =>
    have hfirst : ∀ ds, ds <+: cs → ¬ ['*', '/'] <+: c :: ds := by
      rintro ds ⟨es, rfl⟩ ⟨fs, heq⟩
      obtain ⟨hc, hds⟩ : '*' = c ∧ '/' :: fs = ds := by simpa using heq
      exact hnot (fs ++ es) hc.symm (by rw [← hds, List.cons_append])
    rcases ih with ⟨body, rest, rfl, hbody, hlength⟩ | ⟨hcs, hlength⟩
    · refine .inl ⟨c :: body, rest, rfl, ?_, by simp [hlength]⟩
      rw [List.infix_cons_iff, not_or]
      exact ⟨hfirst body (List.prefix_append _ _), hbody⟩
    · refine .inr ⟨?_, by simp [hlength]⟩
      rw [List.infix_cons_iff, not_or]
      exact ⟨hfirst cs List.prefix_rfl, hcs⟩
  | case3 => exact .inr ⟨by simp, rfl⟩

/-- A comment is skipped as a whole. -/
theorem skips_comment (hpos : 0 < commentLength cs) (h : Skips (cs.drop (commentLength cs)) rest) :
    Skips cs rest := by
  revert hpos h
  fun_cases commentLength cs with
  | case1 cs =>
    intro _ h
    have hdrop : (cs.takeWhile (!Text.isLineEnd ·) ++ cs.dropWhile (!Text.isLineEnd ·)).drop
        (cs.takeWhile (!Text.isLineEnd ·)).length = cs.dropWhile (!Text.isLineEnd ·) := List.drop_left
    rw [List.takeWhile_append_dropWhile] at hdrop
    rw [List.drop_succ_cons, List.drop_succ_cons, hdrop] at h
    have hbody : ∀ c ∈ cs.takeWhile (!Text.isLineEnd ·), Text.isLineEnd c = false := by
      intro c hc
      simpa using List.all_eq_true.mp List.all_takeWhile c hc
    have hall := Skips.line hbody (fun c hc => ?_) h
    · rwa [List.takeWhile_append_dropWhile] at hall
    · have hhead := List.head?_dropWhile_not (!Text.isLineEnd ·) cs
      rw [Option.mem_def.mp hc] at hhead
      simpa using hhead
  | case2 cs =>
    intro _ h
    rw [List.drop_succ_cons, List.drop_succ_cons] at h
    rcases closingLength_cases cs with ⟨body, rest', rfl, hbody, hlength⟩ | ⟨hcs, hlength⟩
    · have hdrop : (body ++ '*' :: '/' :: rest').drop (body.length + 2) = rest' := by
        rw [List.drop_append]
        simp
      rw [hlength, hdrop] at h
      exact .block hbody h
    · rw [hlength, List.drop_length] at h
      cases h
      exact .unclosed hcs
  | case3 => exact fun hpos => absurd hpos (by simp)

/-! ## Places without a lexeme -/

/-- No kind takes text where no lexeme stands. -/
theorem length_of_lexeme?_eq_none (h : lexeme? before cs = none) (kind : Kind) : kind.length before cs = 0 := by
  have hmem : kind ∈ kinds := by cases kind <;> decide
  simpa using List.find?_eq_none.mp h kind hmem

/-- Where no lexeme stands there is a blank inside a line. -/
theorem isBlank_of_lexeme?_eq_none (h : lexeme? before (c :: cs) = none) :
    isBlank c = true ∧ Text.isLineEnd c = false := by
  have hinvalid := length_of_lexeme?_eq_none h .invalid
  have hend := length_of_lexeme?_eq_none h .lineEnd
  simp only [Kind.length, singleLength] at hinvalid hend
  exact ⟨by simpa using hinvalid, by simpa using hend⟩

theorem lexeme?_nil (before : Option Char) : lexeme? before [] = none := by
  rw [lexeme?, List.find?_eq_none]
  intro kind _
  cases kind with
  | operator => simp [Kind.length, operatorLength, operators]
  | _ => simp [Kind.length, wordLength, wordRun, commentLength, singleLength, literalLength, nameLength]

/-- Each lexeme takes some of the text. -/
theorem length_drop_lexeme_lt (h : lexeme? before cs = some kind) :
    (cs.drop (kind.length before cs)).length < cs.length := by
  have hpos := length_pos_of_lexeme? h
  cases cs with
  | nil => simp [lexeme?_nil] at h
  | cons c cs =>
    simp only [List.length_drop, List.length_cons]
    omega

/-! ## Whole texts -/

theorem scanFrom_covers (file : String) (before : Option Char) (offset : Nat) (cs : List Char) :
    Covers file offset cs (scanFrom file before offset cs) := by
  fun_induction scanFrom file before offset cs with
  | case1 before offset => exact .finish .nothing
  | case2 before offset c rest hnone ih =>
    obtain ⟨hblank, hend⟩ := isBlank_of_lexeme?_eq_none hnone
    exact @Covers.skip file offset rest _ [c] (fun _ hrest => .blank hblank hend hrest) ih
  | case3 before offset c rest hkind n text stop tokens ih =>
    have hsplit : text ++ (c :: rest).drop n = c :: rest := List.take_append_drop n (c :: rest)
    have hskip : ∀ rest', Skips ((c :: rest).drop n) rest' → Skips (text ++ (c :: rest).drop n) rest' := by
      intro rest' hrest'
      rw [hsplit]
      exact skips_comment (length_pos_of_lexeme? hkind) hrest'
    have hall := Covers.skip hskip ih
    rwa [hsplit] at hall
  | case4 before offset c rest kind hkind n text stop tokens hne ih =>
    have hsplit : text ++ (c :: rest).drop n = c :: rest := List.take_append_drop n (c :: rest)
    have htext : text ≠ [] := by
      intro hnil
      have hpos : 0 < n := length_pos_of_lexeme? hkind
      rcases List.take_eq_nil_iff.mp hnil with hn | hcons
      · omega
      · cases hcons
    have hall := @Covers.token file offset [] text _ kind _ .nothing htext hne ih
    rwa [List.nil_append, hsplit] at hall

/-- Each token of a covered text is cut out of it by its span, at whole characters. -/
theorem Covers.slice (h : Covers file offset cs ts) (ht : t ∈ ts) :
    t.kind ≠ .comment ∧ t.span.start < t.span.stop ∧
      ∃ pre post, cs = pre ++ t.text.toList ++ post ∧ t.span.start = offset + byteLength pre ∧
        t.span.stop = offset + byteLength (pre ++ t.text.toList) := by
  induction h with
  | finish => simp at ht
  | @token offset gap text rest kind ts _ htext hkind _ ih =>
    rcases List.mem_cons.mp ht with rfl | ht
    · have hpos : 0 < text.length := List.length_pos_iff.mpr htext
      have hbytes := length_le_byteLength text
      exact ⟨hkind, show offset + byteLength gap < offset + byteLength gap + byteLength text by omega,
        gap, rest, by simp, rfl, by simp [Nat.add_assoc]⟩
    · obtain ⟨hcomment, hspan, pre, post, rfl, hstart, hstop⟩ := ih ht
      refine ⟨hcomment, hspan, gap ++ text ++ pre, post, by simp, ?_, ?_⟩
      · rw [hstart, byteLength_append, byteLength_append]
        omega
      · rw [hstop]
        simp only [byteLength_append]
        omega

/-- The tokens of a covered text stand one behind the other. -/
theorem Covers.pairwise (h : Covers file offset cs ts) : ts.Pairwise fun t u => t.span.stop ≤ u.span.start := by
  induction h with
  | finish => exact .nil
  | token _ _ _ hrest ih =>
    refine .cons (fun u hu => ?_) ih
    obtain ⟨-, -, pre, -, -, hstart, -⟩ := hrest.slice hu
    rw [hstart]
    exact Nat.le_add_right _ _

theorem stop_le_of_mem_scan {source : String} (ht : t ∈ scan file source) : t.span.stop ≤ source.utf8ByteSize := by
  obtain ⟨-, -, pre, post, htext, -, hstop⟩ := (scanFrom_covers file none 0 source.toList).slice ht
  have hsize : source.utf8ByteSize = byteLength (pre ++ t.text.toList ++ post) := by
    rw [← htext, ← utf8ByteSize_ofList, String.ofList_toList]
  rw [hsize, byteLength_append]
  omega

/-- In a source of less than 4 GiB a span is the same when its offsets are cut down to 32 bits. -/
theorem span_mod_of_mem_scan {source : String} (hsize : source.utf8ByteSize < UInt32.size) (ht : t ∈ scan file source) :
    t.span.start % UInt32.size = t.span.start ∧ t.span.stop % UInt32.size = t.span.stop := by
  obtain ⟨-, hspan, -⟩ := (scanFrom_covers file none 0 source.toList).slice ht
  have hstop : t.span.stop < UInt32.size := Nat.lt_of_le_of_lt (stop_le_of_mem_scan ht) hsize
  exact ⟨Nat.mod_eq_of_lt (Nat.lt_trans hspan hstop), Nat.mod_eq_of_lt hstop⟩

/-- Source text is its tokens, each cut out of the text by its span, with nothing but blanks inside a line and
comments before, between and behind them. If no lexeme stands anywhere in a text, all of it is such blanks, and
every lexeme takes some of the text. -/
theorem scan_covers (file source : String) :
    Covers file 0 source.toList (scan file source) ∧
      (∀ t ∈ scan file source, t.kind ≠ .comment ∧ t.span.start < t.span.stop ∧
        ∃ pre post, source.toList = pre ++ t.text.toList ++ post ∧ t.span.start = byteLength pre ∧
          t.span.stop = byteLength (pre ++ t.text.toList)) ∧
      (scan file source).Pairwise (fun t u => t.span.stop ≤ u.span.start) ∧
      (∀ (before : Option Char) (cs : List Char),
        (∀ pre post, cs = pre ++ post → post ≠ [] → lexeme? (pre.getLast?.or before) post = none) →
          ∀ c ∈ cs, isBlank c = true ∧ Text.isLineEnd c = false) ∧
      ∀ (before : Option Char) (cs : List Char) (kind : Kind), lexeme? before cs = some kind →
        (cs.drop (kind.length before cs)).length < cs.length := by
  have hcovers : Covers file 0 source.toList (scan file source) := scanFrom_covers file none 0 source.toList
  refine ⟨hcovers, fun t ht => ?_, hcovers.pairwise, ?_, fun _ _ _ h => length_drop_lexeme_lt h⟩
  · simpa using hcovers.slice ht
  · intro before cs hnone c hc
    obtain ⟨pre, post, rfl⟩ := List.append_of_mem hc
    exact isBlank_of_lexeme?_eq_none (hnone pre (c :: post) rfl (by simp))

end AddressLines.Token
