import AddressLines.Proofs.Token.Comment
import AddressLines.Proofs.Token.Shape
import Mathlib.Data.Bool.AllAny

/-!
# Scanning undoes spelling

Each kind of token has its spellings (`Spells`). Lexemes that are written one behind the other, with one space between
them, are scanned as just these lexemes, each at its place (`scan_spelling`).

The rules for the kinds overlap, and some of them look far ahead. But the first character of a lexeme rules out most
of them, and a space is part of no word, no numeral and no operator. So behind a space and before one, the first rule
that takes some text is that of the lexeme's own kind, and it takes the whole lexeme (`Spells.leads`).
-/

namespace AddressLines.Token

open Text

/-! ## Spellings -/

/-- How tokens of each kind are spelled. -/
inductive Spells : Kind → String → Prop
  | keyword {w : String} : w ∈ keywords → Spells .keyword w
  | operator {op : String} : op ∈ operators → Spells .operator op
  | delimiter {c : Char} : isDelimiter c = true → Spells .delimiter (String.ofList [c])
  | numeral {whole mark fraction : List Char} :
    whole ≠ [] → (∀ c ∈ whole, c.isDigit = true) →
      mark.length ≤ 1 → (∀ c ∈ mark, isNumeralMark c = true) → (∀ c ∈ fraction, c.isDigit = true) →
      Spells .literal (String.ofList (whole ++ (mark ++ fraction)))
  | boolean {w : String} : w ∈ booleans → Spells .literal w
  | quoted {body : List Char} : '"' ∉ body → Spells .literal (String.ofList ('"' :: (body ++ ['"'])))
  | character {c : Char} : c ≠ '\n' → Spells .literal (String.ofList ['\'', c, '\''])
  | escaped {c : Char} : c ≠ '\n' → Spells .literal (String.ofList ['\'', '\\', c, '\''])
  | identifier {w : String} : isIdentifier w = true → w ∉ keywords → w ∉ booleans → Spells .identifier w
  | lineEnd {c : Char} : Text.isLineEnd c = true → Spells .lineEnd (String.ofList [c])

/-- A kind with one of its spellings. -/
structure Lexeme where
  kind : Kind
  text : String
  spells : Spells kind text

/-- Lexemes as a text, with one space between them. -/
def spelling (ls : List Lexeme) : String :=
  " ".intercalate (ls.map Lexeme.text)

/-- The tokens of lexemes that stand in a file from a byte offset on, each one byte behind the one before. -/
def placed (file : String) (offset : Nat) : List Lexeme → List Token
  | [] => []
  | l :: ls =>
    let stop := offset + l.text.utf8ByteSize
    ⟨l.kind, l.text, ⟨file, offset, stop⟩⟩ :: placed file (stop + 1) ls

variable {before : Option Char} {c : Char} {cs rest body : List Char} {words : List String} {w : String}

/-! ## The first character -/

/-- A word that starts with another character is not taken. -/
theorem wordLength_of_head (h : ∀ w ∈ words, w.toList.head? ≠ some c) : wordLength words before (c :: cs) = 0 := by
  rw [wordLength]
  split_ifs with hword
  · obtain ⟨-, hmem⟩ : noWord before = true ∧ String.ofList (wordRun (c :: cs)) ∈ words := by simpa using hword
    have hhead := h _ hmem
    rw [String.toList_ofList] at hhead
    by_cases hc : isWord c = true
    · exact absurd (by simp [wordRun, hc]) hhead
    · simp [wordRun, hc]
  · rfl

theorem operatorLength_of_head (h : ∀ op ∈ operators, op.toList.head? ≠ some c) : operatorLength (c :: cs) = 0 := by
  have hnone : operators.find? (·.toList.isPrefixOf (c :: cs)) = none := by
    rw [List.find?_eq_none]
    intro op hop hprefix
    have hnonempty : ∀ op ∈ operators, op.toList ≠ [] := by decide
    cases hlist : op.toList with
    | nil => exact hnonempty op hop hlist
    | cons d ds =>
      rw [hlist, List.isPrefixOf_iff_prefix, List.cons_prefix_cons] at hprefix
      exact h op hop (by simp [hlist, hprefix.1])
  rw [operatorLength, hnone]
  rfl

theorem commentLength_of_head (hc : c ≠ '/') : commentLength (c :: cs) = 0 := by
  rw [commentLength] <;> simp [hc]

/-- No comment, operator or delimiter starts with this character. -/
structure IsPlainStart (c : Char) : Prop where
  comment : c ≠ '/'
  operator : ∀ op ∈ operators, op.toList.head? ≠ some c
  delimiter : isDelimiter c = false

theorem isPlainStart_of_isWord (hc : isWord c = true) : IsPlainStart c := by
  have hslash : isWord '/' = false := by decide
  have hoperators : ∀ op ∈ operators, op.toList.head?.all (!isWord ·) = true := by decide
  have hdelimiters : ∀ d ∈ delimiters, isWord d = false :=
    List.all_iff_forall_prop.mp (by decide)
  refine ⟨?_, ?_, ?_⟩
  · rintro rfl
    simp [hslash] at hc
  · intro op hop hhead
    have hfirst := hoperators op hop
    simp [hhead, hc] at hfirst
  · cases hdelimiter : isDelimiter c with
    | false => rfl
    | true =>
      have hmem : c ∈ delimiters := by simpa [isDelimiter] using hdelimiter
      simp [hdelimiters c hmem] at hc

theorem lexeme?_literal (hstart : IsPlainStart c) (hkeyword : wordLength keywords before (c :: cs) = 0)
    (hpos : 0 < literalLength before (c :: cs)) : lexeme? before (c :: cs) = some .literal := by
  simp [lexeme?, kinds, Kind.length, hkeyword, commentLength_of_head hstart.comment,
    operatorLength_of_head hstart.operator, singleLength, hstart.delimiter, hpos]

theorem lexeme?_identifier (hstart : IsPlainStart c) (hkeyword : wordLength keywords before (c :: cs) = 0)
    (hliteral : literalLength before (c :: cs) = 0) (hpos : 0 < nameLength (c :: cs)) :
    lexeme? before (c :: cs) = some .identifier := by
  simp [lexeme?, kinds, Kind.length, hkeyword, commentLength_of_head hstart.comment,
    operatorLength_of_head hstart.operator, singleLength, hstart.delimiter, hliteral, hpos]

/-! ## Before a space -/

/-- The text ends here, or a space follows. -/
def Apart (rest : List Char) : Prop :=
  rest = [] ∨ ∃ more, rest = ' ' :: more

theorem takeWhile_apart {p : Char → Bool} (hrest : Apart rest) (hblank : p ' ' = false)
    (hall : ∀ c ∈ cs, p c = true) : (cs ++ rest).takeWhile p = cs := by
  rw [List.takeWhile_append_of_pos hall]
  rcases hrest with rfl | ⟨more, rfl⟩
  · simp
  · simp [hblank]

/-- A word that stands apart is taken if it is in the list. -/
theorem wordLength_apart (hbefore : noWord before = true) (hrest : Apart rest)
    (hw : ∀ c ∈ w.toList, isWord c = true) :
    wordLength words before (w.toList ++ rest) = if w ∈ words then w.toList.length else 0 := by
  have hrun : wordRun (w.toList ++ rest) = w.toList := takeWhile_apart hrest (by decide) hw
  simp [wordLength, hrun, hbefore]

theorem commentLength_apart (hrest : Apart rest) (h : commentLength cs = 0) : commentLength (cs ++ rest) = 0 := by
  rcases hrest with rfl | ⟨more, rfl⟩
  · simpa using h
  · rcases cs with _ | ⟨c, _ | ⟨d, ds⟩⟩
    · simp [commentLength]
    · simp [commentLength]
    · rw [List.cons_append, List.cons_append, commentLength]
      · rintro _ hc
        obtain ⟨rfl, rfl, -⟩ := by simpa using hc
        simp [commentLength] at h
      · rintro _ hc
        obtain ⟨rfl, rfl, -⟩ := by simpa using hc
        simp [commentLength] at h

theorem operatorLength_apart (hrest : Apart rest) (cs : List Char) :
    operatorLength (cs ++ rest) = operatorLength cs := by
  rcases hrest with rfl | ⟨more, rfl⟩
  · rw [List.append_nil]
  · have hblank : ∀ op ∈ operators, ' ' ∉ op.toList := by decide
    have hfind : operators.find? (·.toList.isPrefixOf (cs ++ ' ' :: more)) =
        operators.find? (·.toList.isPrefixOf cs) := by
      refine List.find?_congr fun op hop => ?_
      rw [Bool.eq_iff_iff, List.isPrefixOf_iff_prefix, List.isPrefixOf_iff_prefix]
      exact prefix_append_cons_iff (hblank op hop)
    rw [operatorLength, operatorLength, hfind]

/-- A numeral ends behind its digits, or behind those after its mark. -/
theorem numeralLength_apart {whole mark fraction : List Char} (hrest : Apart rest)
    (hwhole : ∀ c ∈ whole, c.isDigit = true) (hone : mark.length ≤ 1) (hmark : ∀ c ∈ mark, isNumeralMark c = true)
    (hfraction : ∀ c ∈ fraction, c.isDigit = true) :
    numeralLength (whole ++ (mark ++ fraction) ++ rest) = (whole ++ (mark ++ fraction)).length := by
  have hmarks : ∀ m ∈ ['.', 'e', 'x', 'o', 'b', 'E', 'X', 'O', 'B'], m.isDigit = false :=
    List.all_iff_forall_prop.mp (by decide)
  match mark, hone with
  | [], _ =>
    have hdigits : ∀ c ∈ whole ++ fraction, c.isDigit = true := by
      rw [List.forall_mem_append]
      exact ⟨hwhole, hfraction⟩
    have hrun : (whole ++ fraction ++ rest).takeWhile Char.isDigit = whole ++ fraction :=
      takeWhile_apart hrest (by decide) hdigits
    simp only [List.nil_append, numeralLength, hrun, List.drop_left]
    rcases hrest with rfl | ⟨more, rfl⟩
    · rfl
    · simp [isNumeralMark]
  | [m], _ =>
    have hm : isNumeralMark m = true := hmark m (by simp)
    have hdigit : m.isDigit = false := hmarks m (by simpa [isNumeralMark] using hm)
    have hrun : (whole ++ m :: (fraction ++ rest)).takeWhile Char.isDigit = whole := by
      rw [List.takeWhile_append_of_pos hwhole, List.takeWhile_cons_of_neg (by simp [hdigit]), List.append_nil]
    have hbehind : (fraction ++ rest).takeWhile Char.isDigit = fraction :=
      takeWhile_apart hrest (by decide) hfraction
    have htext : whole ++ ([m] ++ fraction) ++ rest = whole ++ m :: (fraction ++ rest) := by simp
    rw [htext]
    simp only [numeralLength, hrun, List.drop_left, hm, hbehind, if_true, List.length_append, List.length_cons,
      List.length_nil]
    omega

theorem quotedLength_of_notMem (h : '"' ∉ body) (rest : List Char) :
    quotedLength (body ++ '"' :: rest) = body.length + 2 := by
  have hbody : ∀ c ∈ body, (c != '"') = true := by
    intro c hc
    simpa using fun hquote : c = '"' => h (hquote ▸ hc)
  have hrun : (body ++ '"' :: rest).takeWhile (· != '"') = body := by
    rw [List.takeWhile_append_of_pos hbody, List.takeWhile_cons_of_neg (by simp), List.append_nil]
  simp [quotedLength, hrun]

/-! ## Lexemes that stand apart -/

theorem isWord_of_isNamePart (h : isNamePart c = true) : isWord c = true := by
  simp only [isNamePart, Bool.or_eq_true] at h
  simp only [isWord, Bool.or_eq_true]
  exact .inl h

theorem isWord_of_isDigit (h : c.isDigit = true) : isWord c = true := by
  simp [isWord, Char.isAlphanum, h]

/-- The kind and the length of what stands at the front of a text. -/
structure Leads (before : Option Char) (cs : List Char) (kind : Kind) (n : Nat) : Prop where
  lexeme : lexeme? before cs = some kind
  length : kind.length before cs = n

theorem keyword_leads (hbefore : noWord before = true) (hrest : Apart rest) (hw : w ∈ keywords) :
    Leads before (w.toList ++ rest) .keyword w.toList.length := by
  have hwords : ∀ w ∈ keywords, w.toList ≠ [] ∧ w.toList.all isWord = true := by decide
  obtain ⟨hne, hall⟩ := hwords w hw
  have hlength : wordLength keywords before (w.toList ++ rest) = w.toList.length := by
    rw [wordLength_apart hbefore hrest (List.all_eq_true.mp hall), if_pos hw]
  have hpos : 0 < w.toList.length := List.length_pos_iff.mpr hne
  exact ⟨by simp [lexeme?, kinds, Kind.length, hlength, hpos], hlength⟩

theorem operator_leads (hrest : Apart rest) {op : String} (hop : op ∈ operators) :
    Leads before (op.toList ++ rest) .operator op.toList.length := by
  have hoperators : ∀ op ∈ operators, commentLength op.toList = 0 ∧ operatorLength op.toList = op.toList.length ∧
      op.toList ≠ [] ∧ ∀ w ∈ keywords, w.toList.head? ≠ op.toList.head? := by decide
  obtain ⟨hcomment, hself, hne, hwords⟩ := hoperators op hop
  obtain ⟨c, cs, hlist⟩ := List.exists_cons_of_ne_nil hne
  rw [hlist, List.head?_cons] at hwords
  have hlength : operatorLength (op.toList ++ rest) = op.toList.length := (operatorLength_apart hrest _).trans hself
  have hkeyword : wordLength keywords before (op.toList ++ rest) = 0 := by
    rw [hlist, List.cons_append, wordLength_of_head hwords]
  have hpos : 0 < op.toList.length := by simp [hlist]
  exact ⟨by simp [lexeme?, kinds, Kind.length, hkeyword, commentLength_apart hrest hcomment, hlength, hpos], hlength⟩

theorem delimiter_leads (hrest : Apart rest) (hc : isDelimiter c = true) :
    Leads before (c :: rest) .delimiter 1 := by
  have hdelimiters : ∀ d ∈ delimiters, d ≠ '/' ∧ operatorLength [d] = 0 ∧
      ∀ w ∈ keywords, w.toList.head? ≠ some d := List.all_iff_forall_prop.mp (by decide)
  obtain ⟨hslash, hself, hwords⟩ := hdelimiters c (by simpa [isDelimiter] using hc)
  have hoperator : operatorLength (c :: rest) = 0 := (operatorLength_apart hrest [c]).trans hself
  have hlength : singleLength isDelimiter (c :: rest) = 1 := by simp [singleLength, hc]
  refine ⟨?_, hlength⟩
  simp [lexeme?, kinds, Kind.length, wordLength_of_head hwords, commentLength_of_head hslash, hoperator, hlength]

theorem numeral_leads {whole mark fraction : List Char} (hrest : Apart rest) (hne : whole ≠ [])
    (hwhole : ∀ c ∈ whole, c.isDigit = true) (hone : mark.length ≤ 1) (hmark : ∀ c ∈ mark, isNumeralMark c = true)
    (hfraction : ∀ c ∈ fraction, c.isDigit = true) :
    Leads before (whole ++ (mark ++ fraction) ++ rest) .literal (whole ++ (mark ++ fraction)).length := by
  have hlength := numeralLength_apart hrest hwhole hone hmark hfraction
  obtain ⟨c, cs, rfl⟩ := List.exists_cons_of_ne_nil hne
  have hdigit : c.isDigit = true := hwhole c (by simp)
  have hwords : ∀ w ∈ keywords, w.toList.head? ≠ some c := by
    have hheads : ∀ w ∈ keywords, w.toList.head?.all (!Char.isDigit ·) = true := by decide
    intro w hw hhead
    have hfirst := hheads w hw
    simp [hhead, hdigit] at hfirst
  have hliteral : literalLength before (c :: cs ++ (mark ++ fraction) ++ rest) =
      (c :: cs ++ (mark ++ fraction)).length := by
    rw [← hlength]
    simp only [List.cons_append]
    rw [literalLength, if_pos hdigit]
    · rintro rfl
      simp at hdigit
    · rintro rfl
      simp at hdigit
  refine ⟨lexeme?_literal (isPlainStart_of_isWord (isWord_of_isDigit hdigit)) (wordLength_of_head hwords) ?_, hliteral⟩
  exact hliteral ▸ by simp

theorem isDigit_of_isNameStart (h : isNameStart c = true) : c.isDigit = false := by
  have hupper : c.isUpper = decide (65 ≤ c.val ∧ c.val ≤ 90) := rfl
  have hlower : c.isLower = (decide (97 ≤ c.val) && decide (c.val ≤ 122)) := rfl
  have halpha : c.isAlpha = (c.isUpper || c.isLower) := rfl
  rw [Bool.eq_false_iff]
  intro hdigit
  simp only [Char.isDigit, Bool.and_eq_true, decide_eq_true_eq, UInt32.le_iff_toNat_le] at hdigit
  have hnine : c.val.toNat ≤ 57 := hdigit.2
  simp only [isNameStart, halpha, hupper, hlower, Bool.or_eq_true, Bool.and_eq_true, decide_eq_true_eq,
    UInt32.le_iff_toNat_le, beq_iff_eq] at h
  rcases h with (h | h) | rfl
  · have hfirst : 65 ≤ c.val.toNat := h.1
    omega
  · have hfirst : 97 ≤ c.val.toNat := h.1
    omega
  · exact absurd hnine (by decide)

/-- A word is no literal of another form than a truth value. -/
theorem literalLength_of_isNameStart (hc : isNameStart c = true) :
    literalLength before (c :: cs) = wordLength booleans before (c :: cs) := by
  rw [literalLength, isDigit_of_isNameStart hc]
  · simp
  · rintro rfl
    simp [isNameStart] at hc
  · rintro rfl
    simp [isNameStart] at hc

theorem nameLength_apart (hrest : Apart rest) (hc : isNameStart c = true) (hcs : ∀ d ∈ cs, isNamePart d = true) :
    nameLength (c :: cs ++ rest) = (c :: cs).length := by
  rw [List.cons_append, nameLength, if_pos hc, takeWhile_apart hrest (by decide) hcs, List.length_cons]

theorem boolean_leads (hbefore : noWord before = true) (hrest : Apart rest) (hw : w ∈ booleans) :
    Leads before (w.toList ++ rest) .literal w.toList.length := by
  have hwords : ∀ w ∈ booleans, w ∉ keywords ∧ w.toList.all isWord = true ∧
      w.toList.head?.any isNameStart = true := by decide
  obtain ⟨hkeywords, hword, hname⟩ := hwords w hw
  have hall := List.all_eq_true.mp hword
  obtain ⟨c, hhead, hc⟩ := (Option.any_eq_true ..).mp hname
  obtain ⟨cs, hlist⟩ := List.head?_eq_some_iff.mp hhead
  have hkeyword : wordLength keywords before (w.toList ++ rest) = 0 := by
    rw [wordLength_apart hbefore hrest hall, if_neg hkeywords]
  have hboolean : wordLength booleans before (w.toList ++ rest) = w.toList.length := by
    rw [wordLength_apart hbefore hrest hall, if_pos hw]
  rw [hlist, List.cons_append] at hkeyword hboolean ⊢
  have hliteral := (literalLength_of_isNameStart hc).trans hboolean
  have hstart := isPlainStart_of_isWord (isWord_of_isNamePart (isNamePart_of_isNameStart hc))
  exact ⟨lexeme?_literal hstart hkeyword (hliteral ▸ by simp), hliteral⟩

theorem identifier_leads (hbefore : noWord before = true) (hrest : Apart rest) (hw : isIdentifier w = true)
    (hkeywords : w ∉ keywords) (hbooleans : w ∉ booleans) :
    Leads before (w.toList ++ rest) .identifier w.toList.length := by
  have hall : ∀ c ∈ w.toList, isWord c = true := fun c hc => isWord_of_isNamePart (isNamePart_of_mem hw hc)
  have hkeyword : wordLength keywords before (w.toList ++ rest) = 0 := by
    rw [wordLength_apart hbefore hrest hall, if_neg hkeywords]
  have hboolean : wordLength booleans before (w.toList ++ rest) = 0 := by
    rw [wordLength_apart hbefore hrest hall, if_neg hbooleans]
  simp only [isIdentifier, Bool.and_eq_true] at hw
  cases hlist : w.toList with
  | nil => simp [hlist] at hw
  | cons c cs =>
    obtain ⟨hc, hcs⟩ : isNameStart c = true ∧ ∀ d ∈ cs, isNamePart d = true := by simpa [hlist] using hw
    have hname := nameLength_apart hrest hc hcs
    rw [hlist, List.cons_append] at hkeyword hboolean
    have hliteral := (literalLength_of_isNameStart hc).trans hboolean
    have hstart := isPlainStart_of_isWord (isWord_of_isNamePart (isNamePart_of_isNameStart hc))
    exact ⟨lexeme?_identifier hstart hkeyword hliteral (hname ▸ by simp), hname⟩

/-- A literal that starts with a quote. -/
theorem quote_leads {quote : Char} (hquote : quote = '"' ∨ quote = '\'') {n : Nat} (hpos : 0 < n)
    (hlength : literalLength before (quote :: cs) = n) : Leads before (quote :: cs) .literal n := by
  have hquotes : ∀ q ∈ ['"', '\''], q ≠ '/' ∧ (∀ op ∈ operators, op.toList.head? ≠ some q) ∧
      isDelimiter q = false ∧ ∀ w ∈ keywords, w.toList.head? ≠ some q :=
    List.all_iff_forall_prop.mp (by decide)
  obtain ⟨hcomment, hoperator, hdelimiter, hwords⟩ := hquotes quote (by simpa using hquote)
  exact ⟨lexeme?_literal ⟨hcomment, hoperator, hdelimiter⟩ (wordLength_of_head hwords) (hlength ▸ hpos), hlength⟩

/-- At a space no lexeme stands, and at a line end only that. -/
theorem lexeme?_blank (hc : c ∈ [' ', '\r', '\n']) (rest : List Char) :
    lexeme? before (c :: rest) = if Text.isLineEnd c then some .lineEnd else none := by
  have hblanks : ∀ d ∈ [' ', '\r', '\n'], d ≠ '/' ∧ (∀ op ∈ operators, op.toList.head? ≠ some d) ∧
      isDelimiter d = false ∧ (∀ w ∈ keywords ++ booleans, w.toList.head? ≠ some d) ∧ d.isDigit = false ∧ d ≠ '"' ∧
      d ≠ '\'' ∧ isNameStart d = false ∧ isBlank d = true :=
    List.all_iff_forall_prop.mp (by decide)
  obtain ⟨hcomment, hoperator, hdelimiter, hwords, hdigit, hquote, happly, hname, hblank⟩ := hblanks c hc
  rw [List.forall_mem_append] at hwords
  have hliteral : literalLength before (c :: rest) = 0 := by
    rw [literalLength, hdigit]
    · simpa using wordLength_of_head hwords.2
    · exact hquote
    · exact happly
  cases hend : Text.isLineEnd c <;>
    simp [lexeme?, kinds, Kind.length, wordLength_of_head hwords.1, commentLength_of_head hcomment,
      operatorLength_of_head hoperator, singleLength, hdelimiter, hliteral, nameLength, hname, hend, hblank]

theorem lineEnd_leads (rest : List Char) (hc : Text.isLineEnd c = true) : Leads before (c :: rest) .lineEnd 1 := by
  have hmem : c ∈ ['\r', '\n'] := by simpa [Text.isLineEnd] using hc
  refine ⟨?_, by simp [Kind.length, singleLength, hc]⟩
  rw [lexeme?_blank (List.mem_cons_of_mem _ hmem), if_pos hc]

/-- A lexeme that stands apart is what scanning finds at its place, and all of it. -/
theorem Spells.leads {kind : Kind} {text : String} (h : Spells kind text) (hbefore : noWord before = true)
    (hrest : Apart rest) : Leads before (text.toList ++ rest) kind text.toList.length := by
  have hapostrophe : rest.head? ≠ some '\'' := by
    rcases hrest with rfl | ⟨more, rfl⟩ <;> simp
  cases h with
  | keyword hw => exact keyword_leads hbefore hrest hw
  | operator hop => exact operator_leads hrest hop
  | @delimiter c hc => simpa using delimiter_leads hrest hc
  | numeral hne hwhole hone hmark hfraction =>
    rw [String.toList_ofList]
    exact numeral_leads hrest hne hwhole hone hmark hfraction
  | boolean hw => exact boolean_leads hbefore hrest hw
  | @quoted body hbody =>
    rw [String.toList_ofList]
    have hlength := quotedLength_of_notMem hbody rest
    refine quote_leads (.inl rfl) (by simp) ?_
    simpa [literalLength] using hlength
  | @character c hc =>
    rw [String.toList_ofList]
    refine quote_leads (.inr rfl) (by simp) ?_
    simp [literalLength, characterLength_cons_cons, hapostrophe, hc]
  | @escaped c hc =>
    rw [String.toList_ofList]
    refine quote_leads (.inr rfl) (by simp) ?_
    simp [literalLength, characterLength_cons_cons, hc]
  | identifier hw hkeywords hbooleans => exact identifier_leads hbefore hrest hw hkeywords hbooleans
  | @lineEnd c hc => simpa using lineEnd_leads rest hc

/-! ## Whole texts -/

variable {file : String} {offset : Nat}

/-- Behind a lexeme that stands apart, scanning goes on in the rest. -/
theorem lexemesFrom_lexeme (l : Lexeme) (hbefore : noWord before = true) (hrest : Apart rest) :
    lexemesFrom file before offset (l.text.toList ++ rest) =
      ⟨l.kind, l.text, ⟨file, offset, offset + l.text.utf8ByteSize⟩⟩ ::
        lexemesFrom file l.text.toList.getLast? (offset + l.text.utf8ByteSize) rest := by
  obtain ⟨hlexeme, hlength⟩ := l.spells.leads hbefore hrest
  have hsize : byteLength l.text.toList = l.text.utf8ByteSize := by
    rw [← utf8ByteSize_ofList, String.ofList_toList]
  rw [lexemesFrom_of_some hlexeme, hlength, List.take_left, List.drop_left, hsize, String.ofList_toList]

theorem lexemesFrom_space (rest : List Char) :
    lexemesFrom file before offset (' ' :: rest) = lexemesFrom file (some ' ') (offset + 1) rest := by
  have hnone : lexeme? before (' ' :: rest) = none := lexeme?_blank (by simp) rest
  rw [lexemesFrom_of_none hnone]
  rfl

theorem lexemesFrom_spelling (ls : List Lexeme) (hbefore : noWord before = true) :
    lexemesFrom file before offset (spelling ls).toList = placed file offset ls := by
  rw [spelling, String.toList_intercalate, List.map_map]
  induction ls generalizing before offset with
  | nil => rw [List.map_nil, List.intercalate_nil, lexemesFrom, placed]
  | cons l ls ih =>
    cases ls with
    | nil =>
      have halone := @lexemesFrom_lexeme before [] file offset l hbefore (.inl rfl)
      rw [List.append_nil] at halone
      rw [List.map_cons, List.map_nil, List.intercalate_singleton, placed, placed]
      rw [lexemesFrom] at halone
      exact halone
    | cons next ls =>
      rw [List.map_cons, List.map_cons, List.intercalate_cons_cons, List.append_assoc, placed]
      have hspace : noWord (some ' ') = true := by decide
      have hrest := @ih (some ' ') (offset + l.text.utf8ByteSize + 1) hspace
      rw [← hrest]
      exact (lexemesFrom_lexeme l hbefore (.inr ⟨_, rfl⟩)).trans (congrArg _ (lexemesFrom_space _))

theorem kind_ne_comment_of_mem_placed {ls : List Lexeme} {t : Token} (ht : t ∈ placed file offset ls) :
    t.kind ≠ .comment := by
  induction ls generalizing offset with
  | nil => simp [placed] at ht
  | cons l ls ih =>
    rw [placed] at ht
    rcases List.mem_cons.mp ht with rfl | ht
    · have hspells := l.spells
      intro hkind
      simp only at hkind
      rw [hkind] at hspells
      cases hspells
    · exact ih ht

/-- Scanning undoes spelling: lexemes with one space between them are scanned as these lexemes, with their kinds and
their texts, each at the bytes it has in the text. The offsets are numbers of any size; `span_mod_of_mem_scan` says
where 32 bits hold them. -/
theorem scan_spelling (file : String) (ls : List Lexeme) : scan file (spelling ls) = placed file 0 ls := by
  rw [scan, scanFrom_eq_filter, lexemesFrom_spelling ls rfl, List.filter_eq_self]
  intro t ht
  simpa using kind_ne_comment_of_mem_placed ht

/-- A keyword, a name, an operator, a numeral, a character, a delimiter and a line end. -/
example : ∃ ls : List Lexeme, spelling ls = "if ifs >= 1e5 '\\'' \x7b \n" ∧ scan "m" (spelling ls) = placed "m" 0 ls :=
  ⟨[⟨.keyword, _, .keyword (show "if" ∈ keywords by decide)⟩,
      ⟨.identifier, "ifs", .identifier (by decide) (by decide) (by decide)⟩,
      ⟨.operator, _, .operator (show ">=" ∈ operators by decide)⟩,
      ⟨.literal, _,
        @Spells.numeral ['1'] ['e'] ['5'] (by simp) (by simp) (by simp) (by simp [isNumeralMark]) (by simp)⟩,
      ⟨.literal, _, @Spells.escaped '\'' (by decide)⟩,
      ⟨.delimiter, _, @Spells.delimiter '\x7b' (by decide)⟩,
      ⟨.lineEnd, _, @Spells.lineEnd '\n' (by decide)⟩],
    by decide +kernel, by decide +kernel⟩

end AddressLines.Token
