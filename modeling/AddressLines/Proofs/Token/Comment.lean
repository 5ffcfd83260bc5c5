import AddressLines.Proofs.Token.Coverage
import Mathlib.Data.List.Find
import Mathlib.Tactic.SplitIfs

/-!
# Comments stand between tokens

A comment cuts a text in two that are scanned apart: the tokens before it are those of the text before it alone, and
the tokens behind it are those of the text behind it, moved to their place.

Every rule looks ahead in the text, and some of them without a bound: a string literal may close far behind. But where
scanning has come to a comment, no lexeme before it has reached over that place. So each rule has had what it took
from the text before the comment, and gives the same answer if that text ends there (`length_append_comment`). The
text behind a comment is scanned as from a start, since neither the end of a block comment nor a line end is part of a
word.
-/

namespace AddressLines.Token

open Text

/-! ## All lexemes of a text -/

/-- The lexemes of `cs` in their order, comments included, when it stands at a byte offset after the character
`before`. -/
def lexemesFrom (file : String) (before : Option Char) (offset : Nat) : List Char → List Token
  | [] => []
  | c :: rest =>
    match _h : lexeme? before (c :: rest) with
    | none => lexemesFrom file (some c) (offset + c.utf8Size) rest
    | some kind =>
      let n := kind.length before (c :: rest)
      let text := (c :: rest).take n
      let stop := offset + byteLength text
      ⟨kind, String.ofList text, ⟨file, offset, stop⟩⟩ :: lexemesFrom file text.getLast? stop ((c :: rest).drop n)
termination_by cs => cs.length
decreasing_by
  · simp
  · exact length_drop_lexeme_lt _h

def lexemes (file source : String) : List Token :=
  lexemesFrom file none 0 source.toList

variable {file : String} {before : Option Char} {offset : Nat} {kind : Kind} {c x : Char} {cs rest : List Char}

theorem lexemesFrom_of_none (h : lexeme? before (c :: rest) = none) :
    lexemesFrom file before offset (c :: rest) = lexemesFrom file (some c) (offset + c.utf8Size) rest := by
  rw [lexemesFrom]
  split
  · rfl
  · rename_i kind hkind
    simp [h] at hkind

theorem lexemesFrom_of_some (h : lexeme? before cs = some kind) :
    lexemesFrom file before offset cs =
      ⟨kind, String.ofList (cs.take (kind.length before cs)),
        ⟨file, offset, offset + byteLength (cs.take (kind.length before cs))⟩⟩ ::
      lexemesFrom file (cs.take (kind.length before cs)).getLast?
        (offset + byteLength (cs.take (kind.length before cs))) (cs.drop (kind.length before cs)) := by
  cases cs with
  | nil => simp [lexeme?_nil] at h
  | cons c rest =>
    rw [lexemesFrom]
    split
    · rename_i hnone
      simp [h] at hnone
    · rename_i kind' hkind
      obtain rfl : kind' = kind := by simpa [h] using hkind.symm
      rfl

/-- The tokens of a text are its lexemes without the comments. -/
theorem scanFrom_eq_filter (file : String) (before : Option Char) (offset : Nat) (cs : List Char) :
    scanFrom file before offset cs = (lexemesFrom file before offset cs).filter (·.kind ≠ .comment) := by
  fun_induction scanFrom file before offset cs with
  | case1 => simp [lexemesFrom]
  | case2 before offset c rest hnone ih => rw [lexemesFrom_of_none hnone, ih]
  | case3 before offset c rest hkind n text stop tokens ih =>
    rw [lexemesFrom_of_some hkind, List.filter_cons_of_neg (by simp)]
    exact ih
  | case4 before offset c rest kind hkind n text stop tokens hne ih =>
    rw [lexemesFrom_of_some hkind, List.filter_cons_of_pos (by simpa using hne)]
    exact congrArg _ ih

theorem offset_le_of_mem_lexemesFrom {t : Token} (ht : t ∈ lexemesFrom file before offset cs) :
    offset ≤ t.span.start := by
  fun_induction lexemesFrom file before offset cs with
  | case1 => simp at ht
  | case2 before offset c rest hnone ih => exact Nat.le_trans (Nat.le_add_right ..) (ih ht)
  | case3 before offset c rest kind hkind n text stop ih =>
    rcases List.mem_cons.mp ht with rfl | ht
    · exact Nat.le_refl _
    · exact Nat.le_trans (Nat.le_add_right ..) (ih ht)

/-! ## Lexemes that end before a comment -/

theorem takeWhile_append_cons {p : Char → Bool} (hp : p c = false) (cs rest : List Char) :
    (cs ++ c :: rest).takeWhile p = cs.takeWhile p := by
  induction cs with
  | nil => simp [hp]
  | cons d cs ih => rw [List.cons_append, List.takeWhile_cons, List.takeWhile_cons, ih]

/-- A run that does not reach over the end of a text ends in it. -/
theorem takeWhile_append_of_le {p : Char → Bool} (hp : p c = true)
    (h : ((cs ++ c :: rest).takeWhile p).length ≤ cs.length) : (cs ++ c :: rest).takeWhile p = cs.takeWhile p := by
  rw [List.takeWhile_append] at h ⊢
  split_ifs at h ⊢
  · rw [List.takeWhile_cons_of_pos hp, List.length_append, List.length_cons] at h
    omega
  · rfl

theorem wordLength_append (words : List String) (before : Option Char) (cs rest : List Char) :
    wordLength words before (cs ++ '/' :: rest) = wordLength words before cs := by
  have hrun : wordRun (cs ++ '/' :: rest) = wordRun cs := takeWhile_append_cons (by decide) cs rest
  rw [wordLength, wordLength, hrun]

theorem closingLength_cons (h : c = '*' → cs.head? ≠ some '/') : closingLength (c :: cs) = closingLength cs + 1 := by
  rw [closingLength]
  rintro rest hc rfl
  exact h hc rfl

theorem closingLength_append (h : closingLength (cs ++ '/' :: rest) ≤ cs.length) :
    closingLength cs = closingLength (cs ++ '/' :: rest) := by
  induction cs with
  | nil =>
    rw [List.nil_append, closingLength_cons (by simp)] at h
    simp at h
  | cons c cs ih =>
    by_cases hclose : c = '*' ∧ cs.head? = some '/'
    · obtain ⟨rfl, hhead⟩ := hclose
      obtain ⟨ds, rfl⟩ := List.head?_eq_some_iff.mp hhead
      rfl
    · have hshort : closingLength (c :: cs) = closingLength cs + 1 :=
        closingLength_cons fun hc hhead => hclose ⟨hc, hhead⟩
      have hlong : closingLength (c :: (cs ++ '/' :: rest)) = closingLength (cs ++ '/' :: rest) + 1 := by
        refine closingLength_cons fun hc hhead => ?_
        cases cs with
        | nil =>
          -- a star at the very end would close the comment with the first character behind it
          subst hc
          simp [closingLength] at h
        | cons d ds => exact hclose ⟨hc, hhead⟩
      rw [List.cons_append, hlong, List.length_cons] at h
      rw [List.cons_append, hshort, hlong, ih (by omega)]

theorem commentLength_append (hcs : cs ≠ []) (h : commentLength (cs ++ '/' :: rest) ≤ cs.length) :
    commentLength cs = commentLength (cs ++ '/' :: rest) := by
  cases cs with
  | nil => exact absurd rfl hcs
  | cons c cs =>
    by_cases hc : c = '/'
    · subst hc
      cases cs with
      | nil =>
        simp [commentLength] at h
      | cons d ds =>
        by_cases hline : d = '/'
        · subst hline
          simp only [commentLength, List.cons_append, List.length_cons, Nat.add_le_add_iff_right] at h ⊢
          rw [takeWhile_append_of_le (by decide) h]
        · by_cases hblock : d = '*'
          · subst hblock
            simp only [commentLength, List.cons_append, List.length_cons, Nat.add_le_add_iff_right] at h ⊢
            rw [closingLength_append h]
          · rw [commentLength, commentLength] <;> simp [hline, hblock]
    · rw [commentLength, commentLength] <;> simp [hc]

/-- Text without a character that starts a longer text starts the part before that character. -/
theorem prefix_append_cons_iff {op : List Char} (hop : c ∉ op) : op <+: cs ++ c :: rest ↔ op <+: cs := by
  induction op generalizing cs with
  | nil => simp
  | cons d op ih =>
    obtain ⟨hd, hop⟩ : c ≠ d ∧ c ∉ op := by simpa using hop
    cases cs with
    | nil => simp [hd.symm]
    | cons e es => rw [List.cons_append, List.cons_prefix_cons, List.cons_prefix_cons, ih hop]

theorem operatorLength_append (hcs : cs ≠ []) (rest : List Char) :
    operatorLength (cs ++ '/' :: rest) = operatorLength cs := by
  have hslash : ∀ op ∈ operators, op = "/" ∨ '/' ∉ op.toList := by decide
  have hfind : operators.find? (·.toList.isPrefixOf (cs ++ '/' :: rest)) =
      operators.find? (·.toList.isPrefixOf cs) := by
    refine List.find?_congr fun op hop => ?_
    rw [Bool.eq_iff_iff, List.isPrefixOf_iff_prefix, List.isPrefixOf_iff_prefix]
    rcases hslash op hop with rfl | hop
    · cases cs with
      | nil => exact absurd rfl hcs
      | cons c cs => simp
    · exact prefix_append_cons_iff hop
  rw [operatorLength, operatorLength, hfind]

theorem numeralLength_append (cs rest : List Char) : numeralLength (cs ++ '/' :: rest) = numeralLength cs := by
  have hwhole : (cs ++ '/' :: rest).takeWhile Char.isDigit = cs.takeWhile Char.isDigit :=
    takeWhile_append_cons (by decide) cs rest
  have hdrop : (cs ++ '/' :: rest).drop (cs.takeWhile Char.isDigit).length =
      cs.drop (cs.takeWhile Char.isDigit).length ++ '/' :: rest :=
    List.drop_append_of_le_length (List.takeWhile_prefix _).length_le
  simp only [numeralLength, hwhole, hdrop]
  cases cs.drop (cs.takeWhile Char.isDigit).length with
  | nil => simp [isNumeralMark]
  | cons d ds => simp only [List.cons_append, takeWhile_append_cons (show Char.isDigit '/' = false by decide)]

theorem quotedLength_append (h : quotedLength (cs ++ '/' :: rest) ≤ cs.length + 1) :
    quotedLength cs = quotedLength (cs ++ '/' :: rest) := by
  have hle := (List.takeWhile_prefix (p := (· != '"')) (l := cs)).length_le
  simp only [quotedLength, List.length_append] at h ⊢
  rw [List.takeWhile_append] at h ⊢
  by_cases hall : (cs.takeWhile (· != '"')).length = cs.length
  · -- the closing quote, if there is one, lies behind the text
    simp only [hall, if_true, List.length_append] at h ⊢
    split_ifs at h ⊢ <;> omega
  · simp only [hall, if_false] at h ⊢
    rw [if_pos (by omega), if_pos (by omega)]

theorem characterLength_cons_cons (c d : Char) (cs : List Char) :
    characterLength (c :: d :: cs) =
      if c = '\\' ∧ cs.head? = some '\'' then if d = '\n' then 0 else 4
      else if d = '\'' then if c = '\n' then 0 else 3 else 0 := by
  cases cs with
  | nil =>
    by_cases hd : d = '\''
    · simp [hd, characterLength]
    · simp [hd, characterLength]
  | cons e es =>
    by_cases hescaped : c = '\\' ∧ e = '\''
    · obtain ⟨rfl, rfl⟩ := hescaped
      simp [characterLength]
    · by_cases hd : d = '\''
      · simp only [List.head?_cons, Option.some.injEq, hescaped, hd, if_false, if_true]
        rw [characterLength]
        · simp
        · simpa using hescaped
      · simp only [List.head?_cons, Option.some.injEq, hescaped, hd, if_false]
        rw [characterLength]
        · rintro _ _ heq
          obtain ⟨hc, -, he, -⟩ := by simpa using heq
          exact hescaped ⟨hc, he⟩
        · simpa using hd

theorem characterLength_append (hx : x ≠ '\'') (cs rest : List Char) :
    characterLength (cs ++ '/' :: x :: rest) = characterLength cs := by
  rcases cs with _ | ⟨c, _ | ⟨d, ds⟩⟩
  · simp [characterLength, hx]
  · simp [characterLength, hx]
  · simp only [List.cons_append, characterLength_cons_cons]
    cases ds <;> simp

theorem literalLength_append (hcs : cs ≠ []) (hx : x ≠ '\'')
    (h : literalLength before (cs ++ '/' :: x :: rest) ≤ cs.length) :
    literalLength before cs = literalLength before (cs ++ '/' :: x :: rest) := by
  cases cs with
  | nil => exact absurd rfl hcs
  | cons c cs =>
    by_cases hquote : c = '"'
    · subst hquote
      simp only [List.cons_append, literalLength, List.length_cons] at h ⊢
      exact quotedLength_append h
    · by_cases happly : c = '\''
      · subst happly
        simp only [List.cons_append, literalLength]
        exact (characterLength_append hx cs rest).symm
      · rw [List.cons_append, literalLength, literalLength]
        · rw [← List.cons_append, numeralLength_append, wordLength_append]
        all_goals simpa

/-- Where a comment comes next, a rule that does not reach over that place takes what it takes at the end of the
text. -/
theorem length_append_comment (hcs : cs ≠ []) (hx : x ≠ '\'') (kind : Kind)
    (h : kind.length before (cs ++ '/' :: x :: rest) ≤ cs.length) :
    kind.length before cs = kind.length before (cs ++ '/' :: x :: rest) := by
  have hhead : ∀ p, singleLength p (cs ++ '/' :: x :: rest) = singleLength p cs := by
    intro p
    cases cs with
    | nil => exact absurd rfl hcs
    | cons c cs => rfl
  cases kind with
  | keyword => exact (wordLength_append ..).symm
  | comment => exact commentLength_append hcs h
  | operator => exact (operatorLength_append hcs _).symm
  | delimiter => exact (hhead _).symm
  | literal => exact literalLength_append hcs hx h
  | identifier =>
    cases cs with
    | nil => exact absurd rfl hcs
    | cons c cs =>
      have hpart : isNamePart '/' = false := by decide
      simp only [Kind.length, nameLength, List.cons_append, takeWhile_append_cons hpart]
  | lineEnd => exact (hhead _).symm
  | invalid => exact (hhead _).symm

theorem length_eq_zero_of_append (hcs : cs ≠ []) (hx : x ≠ '\'')
    (h : kind.length before (cs ++ '/' :: x :: rest) = 0) : kind.length before cs = 0 :=
  (length_append_comment hcs hx kind (h.trans_le (Nat.zero_le _))).trans h

theorem lexeme?_append_of_none (hcs : cs ≠ []) (hx : x ≠ '\'') (h : lexeme? before (cs ++ '/' :: x :: rest) = none) :
    lexeme? before cs = none := by
  rw [lexeme?, List.find?_eq_none]
  intro kind _
  simp [length_eq_zero_of_append hcs hx (length_of_lexeme?_eq_none h kind)]

/-- The first rule that takes some text is the same: those before it take none, and still none if the text ends. -/
theorem lexeme?_append_of_some (hcs : cs ≠ []) (hx : x ≠ '\'')
    (h : lexeme? before (cs ++ '/' :: x :: rest) = some kind)
    (hle : kind.length before (cs ++ '/' :: x :: rest) ≤ cs.length) : lexeme? before cs = some kind := by
  obtain ⟨hpos, earlier, later, hkinds, hnone⟩ := List.find?_eq_some_iff_append.mp h
  refine List.find?_eq_some_iff_append.mpr ⟨?_, earlier, later, hkinds, fun k hk => ?_⟩
  · rw [length_append_comment hcs hx kind hle]
    exact hpos
  · have hzero : k.length before (cs ++ '/' :: x :: rest) = 0 := by simpa using hnone k hk
    simp [length_eq_zero_of_append hcs hx hzero]

/-- A piece at the front of a text that has no more bytes than another one has no more characters. -/
theorem le_length_of_byteLength_le {n : Nat} (h : byteLength ((cs ++ c :: rest).take n) ≤ byteLength cs) :
    n ≤ cs.length := by
  by_contra hlt
  obtain ⟨m, rfl⟩ := Nat.exists_eq_add_of_lt (Nat.lt_of_not_le hlt)
  have hsize := c.utf8Size_pos
  rw [Nat.add_assoc, List.take_length_add_append, byteLength_append, List.take_succ_cons, byteLength_cons] at h
  omega

/-- A lexeme that is not the last before a comment ends before it. -/
theorem length_le_of_mem_lexemesFrom {n : Nat} {before' : Option Char} {ds : List Char} {t : Token}
    (hstart : t.span.start = offset + byteLength cs)
    (ht : t ∈ lexemesFrom file before' (offset + byteLength ((cs ++ c :: rest).take n)) ds) : n ≤ cs.length := by
  have hle := offset_le_of_mem_lexemesFrom ht
  have hbytes : byteLength ((cs ++ c :: rest).take n) ≤ byteLength cs := by omega
  exact le_length_of_byteLength_le hbytes

/-- A lexeme that ends before a comment is taken from the text before it, and scanning goes on in what that has left. -/
theorem lexemesFrom_append_of_some (hcs : cs ≠ []) (hx : x ≠ '\'')
    (h : lexeme? before (cs ++ '/' :: x :: rest) = some kind)
    (hle : kind.length before (cs ++ '/' :: x :: rest) ≤ cs.length) :
    lexemesFrom file before offset (cs ++ '/' :: x :: rest) =
      ⟨kind, String.ofList (cs.take (kind.length before cs)),
        ⟨file, offset, offset + byteLength (cs.take (kind.length before cs))⟩⟩ ::
      lexemesFrom file (cs.take (kind.length before cs)).getLast?
        (offset + byteLength (cs.take (kind.length before cs)))
        (cs.drop (kind.length before cs) ++ '/' :: x :: rest) := by
  have hlength := length_append_comment hcs hx kind hle
  have hshort : kind.length before cs ≤ cs.length := hlength.trans_le hle
  rw [lexemesFrom_of_some h, ← hlength, List.take_append_of_le_length hshort, List.drop_append_of_le_length hshort]

theorem mem_of_mem_cons_of_lt {t u : Token} {ts : List Token} (h : u.span.start < t.span.start) (ht : t ∈ u :: ts) :
    t ∈ ts := by
  rcases List.mem_cons.mp ht with rfl | ht
  · exact absurd h (Nat.lt_irrefl _)
  · exact ht

/-- Scanning that comes to a comment behind a text has found the lexemes of the text alone. -/
theorem lexemesFrom_append (hx : x ≠ '\'') : ∀ (before : Option Char) (offset : Nat) (cs : List Char),
    (∃ t ∈ lexemesFrom file before offset (cs ++ '/' :: x :: rest), t.span.start = offset + byteLength cs) →
      ∃ before', lexemesFrom file before offset (cs ++ '/' :: x :: rest) =
        lexemesFrom file before offset cs ++ lexemesFrom file before' (offset + byteLength cs) ('/' :: x :: rest)
  | before, offset, [], _ => by
    rw [lexemesFrom]
    exact ⟨before, rfl⟩
  | before, offset, c :: cs, h => by
    obtain ⟨t, ht, hstart⟩ := h
    have hbehind : offset < t.span.start := by
      have hsize := c.utf8Size_pos
      rw [hstart, byteLength_cons]
      omega
    cases hlong : lexeme? before (c :: cs ++ '/' :: x :: rest) with
    | none =>
      have hshort := lexeme?_append_of_none (List.cons_ne_nil c cs) hx hlong
      rw [List.cons_append] at hlong ht
      rw [lexemesFrom_of_none hlong] at ht
      rw [List.cons_append, lexemesFrom_of_none hlong, lexemesFrom_of_none hshort, byteLength_cons, ← Nat.add_assoc]
      exact lexemesFrom_append hx _ _ cs ⟨t, ht, by rw [hstart, byteLength_cons, Nat.add_assoc]⟩
    | some kind =>
      -- the lexeme at the comment comes later, so this one has not reached over it
      have hle : kind.length before (c :: cs ++ '/' :: x :: rest) ≤ (c :: cs).length := by
        rw [lexemesFrom_of_some hlong] at ht
        exact length_le_of_mem_lexemesFrom hstart (mem_of_mem_cons_of_lt hbehind ht)
      have hshort : lexeme? before (c :: cs) = some kind :=
        lexeme?_append_of_some (List.cons_ne_nil c cs) hx hlong hle
      have hlt := length_drop_lexeme_lt hshort
      rw [lexemesFrom_append_of_some (List.cons_ne_nil c cs) hx hlong hle] at ht ⊢
      rw [lexemesFrom_of_some hshort]
      generalize kind.length before (c :: cs) = n at hlt ht ⊢
      have hoffset : offset + byteLength ((c :: cs).take n) + byteLength ((c :: cs).drop n) =
          offset + byteLength (c :: cs) := by
        rw [Nat.add_assoc, ← byteLength_append, List.take_append_drop]
      obtain ⟨before', heq⟩ := lexemesFrom_append hx _ _ _
        ⟨t, mem_of_mem_cons_of_lt hbehind ht, by rw [hstart, hoffset]⟩
      rw [hoffset] at heq
      exact ⟨before', congrArg _ heq⟩
termination_by _ _ cs => cs.length
decreasing_by
  · simp
  · exact hlt

/-! ## What a comment is -/

/-- A whole comment and the text behind it. A line comment runs up to a line end or the end of the text, a block
comment up to its first `*/`, and to the end of the text if there is none. -/
inductive IsComment : List Char → List Char → Prop
  | line {body rest : List Char} :
    (∀ c ∈ body, Text.isLineEnd c = false) → (∀ c ∈ rest.head?, Text.isLineEnd c = true) →
      IsComment ('/' :: '/' :: body) rest
  | block {body rest : List Char} : ¬ ['*', '/'] <:+: body → IsComment ('/' :: '*' :: (body ++ ['*', '/'])) rest
  | unclosed {body : List Char} : ¬ ['*', '/'] <:+: body → IsComment ('/' :: '*' :: body) []

/-- A comment opens with a slash and a second character that is no quote. -/
theorem IsComment.opening {k : List Char} (h : IsComment k rest) :
    ∃ x body, k = '/' :: x :: body ∧ x ≠ '\'' := by
  cases h with
  | @line body => exact ⟨'/', body, rfl, by decide⟩
  | @block body => exact ⟨'*', body ++ ['*', '/'], rfl, by decide⟩
  | @unclosed body => exact ⟨'*', body, rfl, by decide⟩

theorem closingLength_of_closed (h : ¬ ['*', '/'] <:+: cs) (rest : List Char) :
    closingLength (cs ++ '*' :: '/' :: rest) = cs.length + 2 := by
  induction cs with
  | nil => rfl
  | cons c cs ih =>
    rw [List.infix_cons_iff, not_or] at h
    have hopen : c = '*' → (cs ++ '*' :: '/' :: rest).head? ≠ some '/' := by
      rintro rfl hhead
      cases cs with
      | nil => simp at hhead
      | cons d ds =>
        obtain rfl : d = '/' := by simpa using hhead
        exact h.1 ⟨ds, rfl⟩
    rw [List.cons_append, closingLength_cons hopen, ih h.2, List.length_cons, Nat.add_right_comm]

theorem closingLength_of_unclosed (h : ¬ ['*', '/'] <:+: cs) : closingLength cs = cs.length := by
  rcases closingLength_cases cs with ⟨body, rest, rfl, -, -⟩ | ⟨-, hlength⟩
  · exact absurd ⟨body, rest, by simp⟩ h
  · exact hlength

theorem IsComment.length_eq {k : List Char} (h : IsComment k rest) : commentLength (k ++ rest) = k.length := by
  cases h with
  | @line body _ hbody hrest =>
    have hrun : (body ++ rest).takeWhile (!Text.isLineEnd ·) = body := by
      rw [List.takeWhile_append_of_pos (by simpa using hbody)]
      cases rest with
      | nil => simp
      | cons c cs => simp [hrest c rfl]
    simp only [List.cons_append, commentLength, hrun, List.length_cons]
  | @block body _ hbody =>
    have hclosing := closingLength_of_closed hbody rest
    simp only [List.cons_append, List.append_assoc, List.nil_append, commentLength, hclosing, List.length_cons,
      List.length_append, List.length_nil]
  | unclosed hbody =>
    simp only [List.append_nil, commentLength, closingLength_of_unclosed hbody, List.length_cons]

theorem IsComment.lexeme?_eq {k : List Char} (h : IsComment k rest) (before : Option Char) :
    lexeme? before (k ++ rest) = some .comment := by
  have hkeyword : wordLength keywords before (k ++ rest) = 0 := by
    obtain ⟨x, body, rfl, -⟩ := h.opening
    have hrun : wordRun ('/' :: x :: body ++ rest) = [] := List.takeWhile_cons_of_neg (by decide)
    rw [wordLength, hrun]
    simp [keywords]
  have hcomment : 0 < commentLength (k ++ rest) := by
    rw [h.length_eq]
    obtain ⟨x, body, rfl, -⟩ := h.opening
    simp
  simp [lexeme?, kinds, Kind.length, hkeyword, hcomment]

/-! ## Scanning behind a comment -/

theorem isWord_of_isLineEnd (h : Text.isLineEnd c = true) : isWord c = false := by
  obtain rfl | rfl : c = '\r' ∨ c = '\n' := by simpa [Text.isLineEnd] using h
  · decide
  · decide

/-- No word goes on from a comment into the text behind it. -/
theorem IsComment.noWord {k : List Char} (h : IsComment k rest) :
    noWord k.getLast? = true ∨ noWord rest.head? = true := by
  cases h with
  | line _ hrest =>
    refine .inr ?_
    cases rest with
    | nil => rfl
    | cons c cs => simp [Text.noWord, isWord_of_isLineEnd (hrest c rfl)]
  | @block body =>
    have hlast : ('/' :: '*' :: (body ++ ['*', '/'])).getLast? = some '/' := by simp [List.getLast?_cons]
    rw [hlast]
    exact .inl (by decide)
  | unclosed => exact .inr rfl

theorem wordLength_of_noWord (words : List String) (h : noWord before = true ∨ noWord cs.head? = true) :
    wordLength words before cs = wordLength words none cs := by
  have hnone : noWord none = true := rfl
  rcases h with hbefore | hhead
  · rw [wordLength, wordLength, hbefore, hnone]
  · have hrun : wordRun cs = [] := by
      cases cs with
      | nil => rfl
      | cons c cs => exact List.takeWhile_cons_of_neg (by simpa [noWord] using hhead)
    simp [wordLength, hrun]

/-- Only the rules for whole words look back, and where no word goes on they find what they find at a start. -/
theorem length_of_noWord (h : noWord before = true ∨ noWord cs.head? = true) (kind : Kind) :
    kind.length before cs = kind.length none cs := by
  cases kind with
  | keyword => exact wordLength_of_noWord keywords h
  | literal =>
    have hword := wordLength_of_noWord booleans h
    simp only [Kind.length]
    fun_cases literalLength before cs with
    | case1 => rfl
    | case2 cs => rfl
    | case3 cs => rfl
    | case4 c cs hquote happly hdigit => simp [literalLength, hdigit]
    | case5 c cs hquote happly hdigit => simp [literalLength, hdigit, hword]
  | _ => rfl

theorem lexemesFrom_of_noWord (h : noWord before = true ∨ noWord cs.head? = true) :
    lexemesFrom file before offset cs = lexemesFrom file none offset cs := by
  have hlexeme : lexeme? before cs = lexeme? none cs := by
    rw [lexeme?, lexeme?]
    simp only [length_of_noWord h]
  cases cs with
  | nil => rw [lexemesFrom, lexemesFrom]
  | cons c cs =>
    cases hkind : lexeme? none (c :: cs) with
    | none => rw [lexemesFrom_of_none hkind, lexemesFrom_of_none (hlexeme.trans hkind)]
    | some kind => rw [lexemesFrom_of_some hkind, lexemesFrom_of_some (hlexeme.trans hkind), length_of_noWord h]

/-- A token moved `n` bytes further into its file. -/
def shift (n : Nat) (t : Token) : Token :=
  ⟨t.kind, t.text, ⟨t.span.file, t.span.start + n, t.span.stop + n⟩⟩

theorem lexemesFrom_add (file : String) (before : Option Char) (offset n : Nat) (cs : List Char) :
    lexemesFrom file before (offset + n) cs = (lexemesFrom file before offset cs).map (shift n) := by
  fun_induction lexemesFrom file before offset cs with
  | case1 => rw [lexemesFrom, List.map_nil]
  | case2 before offset c rest hnone ih => rw [lexemesFrom_of_none hnone, Nat.add_right_comm, ih]
  | case3 before offset c rest kind hkind len text stop ih =>
    rw [lexemesFrom_of_some hkind, Nat.add_right_comm, ih, List.map_cons]
    rfl

/-- Where scanning comes to a comment it takes it whole, and goes on as at the start of the text behind it. -/
theorem IsComment.lexemesFrom_eq {k : List Char} (h : IsComment k rest) (file : String) (before : Option Char)
    (offset : Nat) :
    lexemesFrom file before offset (k ++ rest) =
      ⟨.comment, String.ofList k, ⟨file, offset, offset + byteLength k⟩⟩ ::
        (lexemesFrom file none 0 rest).map (shift (offset + byteLength k)) := by
  have hlength : Kind.length before (k ++ rest) .comment = k.length := h.length_eq
  rw [lexemesFrom_of_some (h.lexeme?_eq before), hlength, List.take_left, List.drop_left,
    lexemesFrom_of_noWord h.noWord, ← lexemesFrom_add, Nat.zero_add]

/-! ## Tokens on both sides of a comment -/

/-- Scanning that comes to a comment between two texts finds the lexemes of the first, the comment and those of the
second, moved behind them. -/
theorem lexemesFrom_comment {s₁ k s₂ : List Char} (hk : IsComment k s₂)
    (h : ∃ t ∈ lexemesFrom file none 0 (s₁ ++ (k ++ s₂)), t.span.start = byteLength s₁) :
    lexemesFrom file none 0 (s₁ ++ (k ++ s₂)) =
      lexemesFrom file none 0 s₁ ++ ⟨.comment, String.ofList k, ⟨file, byteLength s₁, byteLength s₁ + byteLength k⟩⟩ ::
        (lexemesFrom file none 0 s₂).map (shift (byteLength s₁ + byteLength k)) := by
  obtain ⟨x, body, hopening, hx⟩ := hk.opening
  have htext : k ++ s₂ = '/' :: x :: (body ++ s₂) := by rw [hopening, List.cons_append, List.cons_append]
  rw [htext] at h ⊢
  obtain ⟨before, heq⟩ := lexemesFrom_append hx none 0 s₁ (by simpa using h)
  rw [heq, ← htext, hk.lexemesFrom_eq, Nat.zero_add]

theorem filter_map_shift (n : Nat) (ts : List Token) :
    (ts.map (shift n)).filter (·.kind ≠ .comment) = (ts.filter (·.kind ≠ .comment)).map (shift n) := by
  rw [List.filter_map]
  rfl

/-- A comment cuts the tokens of a text in two. Where scanning comes to a comment between two texts, it finds the
tokens of the first, and behind them those of the second, moved by the bytes of the first and the comment. The offsets
are numbers of any size; `span_mod_of_mem_scan` says where 32 bits hold them. -/
theorem scan_comment (file s₁ k s₂ : String) (hk : IsComment k.toList s₂.toList)
    (hmatch : ∃ t ∈ lexemes file (s₁ ++ k ++ s₂), t.kind = .comment ∧ t.span.start = s₁.utf8ByteSize) :
    scan file (s₁ ++ k ++ s₂) =
      scan file s₁ ++ (scan file s₂).map (shift (s₁.utf8ByteSize + k.utf8ByteSize)) := by
  obtain ⟨t, ht, -, hstart⟩ := hmatch
  have hsize : ∀ s : String, s.utf8ByteSize = byteLength s.toList := by
    intro s
    rw [← utf8ByteSize_ofList, String.ofList_toList]
  have htext : (s₁ ++ k ++ s₂).toList = s₁.toList ++ (k.toList ++ s₂.toList) := by
    rw [String.toList_append, String.toList_append, List.append_assoc]
  rw [hsize] at hstart
  rw [lexemes, htext] at ht
  rw [scan, scan, scan, hsize, hsize, htext, scanFrom_eq_filter, lexemesFrom_comment hk ⟨t, ht, hstart⟩,
    List.filter_append, List.filter_cons_of_neg (by simp), filter_map_shift, ← scanFrom_eq_filter,
    ← scanFrom_eq_filter]

/-- The slashes inside the string open no comment, the quote inside the comment no string, and without the comment
there would be a keyword. -/
theorem scan_comment_in_word :
    IsComment "/* \"\n**/".toList "age p".toList ∧
      (∃ t ∈ lexemes "m" ("a = \"//\" + pack" ++ "/* \"\n**/" ++ "age p"), t.kind = .comment ∧ t.span.start = 15) ∧
      scan "m" ("a = \"//\" + pack" ++ "/* \"\n**/" ++ "age p") =
        scan "m" "a = \"//\" + pack" ++ (scan "m" "age p").map (shift 23) := by
  have hcomment : IsComment "/* \"\n**/".toList "age p".toList := @IsComment.block " \"\n*".toList _ (by decide)
  have hmatch : ∃ t ∈ lexemes "m" ("a = \"//\" + pack" ++ "/* \"\n**/" ++ "age p"),
      t.kind = .comment ∧ t.span.start = 15 := by
    decide +kernel
  exact ⟨hcomment, hmatch, scan_comment "m" _ _ _ hcomment hmatch⟩

end AddressLines.Token
