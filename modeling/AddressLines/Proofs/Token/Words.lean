import AddressLines.Proofs.Token.Spelling

/-!
# Words are taken whole

Behind a keyword, an identifier or a truth value no letter, digit or underscore follows. A keyword or a truth value has
no word character of any script beside it, and a word that is spelled like one of them is an identifier only if it has.

Which rule applies at a place hangs on the character before it, and that may belong to another token: the letter at the
end of a numeral, or a letter of another script, which is a token of its own. So a token is looked at together with the
text before it and from it on (`Stands`).
-/

namespace AddressLines.Token

open Text

variable {file : String} {before : Option Char} {offset : Nat} {cs pre here : List Char} {words : List String} {t : Token}

/-! ## Tokens at their places -/

/-- The token is what scanning finds at the front of `here`, behind `pre`, in a text that stands at a byte offset after
the character `before`. -/
structure Stands (before : Option Char) (offset : Nat) (cs pre here : List Char) (t : Token) : Prop where
  text : cs = pre ++ here
  start : t.span.start = offset + byteLength pre
  lexeme : lexeme? (pre.getLast?.or before) here = some t.kind
  taken : t.text.toList = here.take (t.kind.length (pre.getLast?.or before) here)

/-- Text that was scanned before the token belongs to what stands before it. -/
theorem Stands.behind {front : List Char} (hfront : front ≠ [])
    (h : Stands front.getLast? (offset + byteLength front) cs pre here t) :
    Stands before offset (front ++ cs) (front ++ pre) here t := by
  have hbefore : (front ++ pre).getLast?.or before = pre.getLast?.or front.getLast? := by
    rw [List.getLast?_append, List.getLast?_eq_some_getLast hfront]
    cases pre.getLast? <;> rfl
  refine ⟨?_, ?_, hbefore ▸ h.lexeme, hbefore ▸ h.taken⟩
  · rw [h.text, List.append_assoc]
  · rw [h.start, byteLength_append, Nat.add_assoc]

/-- A token of what is left behind the first `n` characters. -/
theorem Stands.of_drop {n : Nat} (hn : 0 < n) (hcs : cs ≠ [])
    (h : Stands (cs.take n).getLast? (offset + byteLength (cs.take n)) (cs.drop n) pre here t) :
    Stands before offset cs (cs.take n ++ pre) here t := by
  have hfront : cs.take n ≠ [] := by simp [Nat.ne_of_gt hn, hcs]
  have hbehind := @Stands.behind before offset (cs.drop n) pre here t _ hfront h
  rwa [List.take_append_drop] at hbehind

/-- Each token stands at some place of its text. -/
theorem stands_of_mem_scanFrom (ht : t ∈ scanFrom file before offset cs) :
    ∃ pre here, Stands before offset cs pre here t := by
  fun_induction scanFrom file before offset cs with
  | case1 => simp at ht
  | case2 before offset c rest hnone ih =>
    obtain ⟨pre, here, hstands⟩ := ih ht
    exact ⟨[c] ++ pre, here, @Stands.behind before offset rest pre here t [c] (by simp) hstands⟩
  | case3 before offset c rest hkind n text stop tokens ih =>
    obtain ⟨pre, here, hstands⟩ := ih ht
    exact ⟨text ++ pre, here, hstands.of_drop (length_pos_of_lexeme? hkind) (List.cons_ne_nil c rest)⟩
  | case4 before offset c rest kind hkind n text stop tokens hne ih =>
    rcases List.mem_cons.mp ht with rfl | ht
    · exact ⟨[], c :: rest, rfl, rfl, hkind, String.toList_ofList⟩
    · obtain ⟨pre, here, hstands⟩ := ih ht
      exact ⟨text ++ pre, here, hstands.of_drop (length_pos_of_lexeme? hkind) (List.cons_ne_nil c rest)⟩

/-! ## Runs of characters -/

theorem take_run (p : Char → Bool) (cs : List Char) : cs.take (cs.takeWhile p).length = cs.takeWhile p :=
  (List.prefix_iff_eq_take.mp (List.takeWhile_prefix p)).symm

/-- Behind a run the text ends, or a character follows that does not belong to it. -/
theorem run_ends {p : Char → Bool} {c : Char} (hc : c ∈ (cs.drop (cs.takeWhile p).length).head?) : p c = false := by
  have hdrop : (cs.takeWhile p ++ cs.dropWhile p).drop (cs.takeWhile p).length = cs.dropWhile p := List.drop_left
  rw [List.takeWhile_append_dropWhile] at hdrop
  have hhead := List.head?_dropWhile_not p cs
  rw [hdrop] at hc
  rw [Option.mem_def.mp hc] at hhead
  simpa using hhead

theorem noWord_iff {c? : Option Char} : noWord c? = true ↔ ∀ c ∈ c?, isWord c = false := by
  cases c? <;> simp [noWord]

theorem wordRun_append {w post : List Char} (hw : ∀ c ∈ w, isWord c = true) (hpost : noWord post.head? = true) :
    wordRun (w ++ post) = w := by
  rw [wordRun, List.takeWhile_append_of_pos hw]
  cases post with
  | nil => simp
  | cons c post =>
    have hc : isWord c = false := noWord_iff.mp hpost c rfl
    simp [hc]

/-! ## Words out of a list -/

/-- A word is taken out of a list as a whole, with no word character beside it. -/
theorem wordLength_alone (h : 0 < wordLength words before here) :
    noWord before = true ∧ noWord (here.drop (wordLength words before here)).head? = true ∧
      String.ofList (here.take (wordLength words before here)) ∈ words := by
  by_cases hword : (noWord before && words.contains (String.ofList (wordRun here))) = true
  · rw [wordLength, if_pos hword, wordRun, take_run]
    obtain ⟨hbefore, hmem⟩ : noWord before = true ∧ String.ofList (wordRun here) ∈ words := by simpa using hword
    exact ⟨hbefore, noWord_iff.mpr fun c hc => run_ends hc, hmem⟩
  · rw [wordLength, if_neg hword] at h
    exact absurd h (Nat.lt_irrefl 0)

/-- A word of the list is taken where no word character stands beside it. -/
theorem wordLength_pos {post : List Char} {w : String} (hw : w ∈ words) (hne : w.toList ≠ [])
    (hall : ∀ c ∈ w.toList, isWord c = true) (hbefore : noWord before = true) (hpost : noWord post.head? = true) :
    0 < wordLength words before (w.toList ++ post) := by
  have hrun := wordRun_append hall hpost
  simpa [wordLength, hrun, hbefore, hw, List.length_pos_iff] using hne

/-- A truth value is taken as a word out of a list. -/
theorem literalLength_boolean {w : String} (hw : w ∈ booleans)
    (htaken : w.toList = here.take (literalLength before here)) :
    literalLength before here = wordLength booleans before here := by
  have hstarts : ∀ w ∈ booleans, w.toList.head?.any isNameStart = true := by decide
  cases here with
  | nil =>
    rw [List.take_nil] at htaken
    have hstart := hstarts w hw
    simp [htaken] at hstart
  | cons c here =>
    refine literalLength_of_isNameStart ?_
    have hstart := hstarts w hw
    rw [htaken] at hstart
    cases hn : literalLength before (c :: here) with
    | zero => simp [hn] at hstart
    | succ n => simpa [hn] using hstart

/-! ## Identifiers -/

theorem nameLength_ends {c : Char} (hpos : 0 < nameLength here) (hc : c ∈ (here.drop (nameLength here)).head?) :
    isNamePart c = false := by
  cases here with
  | nil => simp [nameLength] at hpos
  | cons d here =>
    by_cases hd : isNameStart d = true
    · rw [nameLength, if_pos hd, List.drop_succ_cons] at hc
      exact run_ends hc
    · simp [nameLength, hd] at hpos

/-- An identifier is found where no keyword and no truth value is. -/
theorem wordLength_of_identifier (h : lexeme? before here = some .identifier) :
    wordLength keywords before here = 0 ∧ wordLength booleans before here = 0 := by
  have hpos : 0 < nameLength here := length_pos_of_lexeme? h
  have hkeyword : wordLength keywords before here = 0 := by
    refine Nat.eq_zero_of_not_pos fun hlonger => ?_
    simp [lexeme?, kinds, Kind.length, hlonger] at h
  refine ⟨hkeyword, ?_⟩
  cases here with
  | nil => simp [nameLength] at hpos
  | cons c here =>
    have hc : isNameStart c = true := by
      by_contra hnot
      simp [nameLength, hnot] at hpos
    have hstart := isPlainStart_of_isWord (isWord_of_isNamePart (isNamePart_of_isNameStart hc))
    rw [← literalLength_of_isNameStart hc]
    refine Nat.eq_zero_of_not_pos fun hlonger => ?_
    rw [lexeme?_literal hstart hkeyword hlonger] at h
    cases h

/-- An identifier that is spelled like a keyword or a truth value has a word character beside it. -/
theorem identifier_beside {w : String} (h : lexeme? before here = some .identifier)
    (htaken : w.toList = here.take (nameLength here)) (hw : w ∈ keywords ++ booleans) :
    noWord before = false ∨ noWord (here.drop (nameLength here)).head? = false := by
  have hwords : ∀ w ∈ keywords ++ booleans, w.toList ≠ [] ∧ w.toList.all isWord = true := by decide
  obtain ⟨hne, hall⟩ := hwords w hw
  obtain ⟨hkeyword, hboolean⟩ := wordLength_of_identifier h
  have hsplit : w.toList ++ here.drop (nameLength here) = here := by rw [htaken, List.take_append_drop]
  by_contra hboth
  obtain ⟨hbefore, hbehind⟩ : noWord before = true ∧ noWord (here.drop (nameLength here)).head? = true := by
    simpa using hboth
  rcases List.mem_append.mp hw with hw | hw
  · have hpos := wordLength_pos hw hne (List.all_eq_true.mp hall) hbefore hbehind
    rw [hsplit, hkeyword] at hpos
    exact Nat.lt_irrefl 0 hpos
  · have hpos := wordLength_pos hw hne (List.all_eq_true.mp hall) hbefore hbehind
    rw [hsplit, hboolean] at hpos
    exact Nat.lt_irrefl 0 hpos

/-! ## Whole texts -/

/-- The token is a word out of one of the lists: a keyword or a truth value. -/
def isReserved (t : Token) : Bool :=
  t.kind == .keyword || (t.kind == .literal && booleans.contains t.text)

/-- A keyword or a truth value stands alone. -/
theorem Stands.alone (h : Stands before offset cs pre here t) (ht : isReserved t = true) :
    noWord (pre.getLast?.or before) = true ∧
      noWord (here.drop (t.kind.length (pre.getLast?.or before) here)).head? = true := by
  have hpos := length_pos_of_lexeme? h.lexeme
  obtain hkind | ⟨hkind, htext⟩ : t.kind = .keyword ∨ t.kind = .literal ∧ t.text ∈ booleans := by
    simpa [isReserved] using ht
  · rw [hkind] at hpos ⊢
    obtain ⟨hbefore, hbehind, -⟩ := wordLength_alone hpos
    exact ⟨hbefore, hbehind⟩
  · have htaken := h.taken
    rw [hkind, Kind.length] at hpos htaken ⊢
    rw [literalLength_boolean htext htaken] at hpos ⊢
    obtain ⟨hbefore, hbehind, -⟩ := wordLength_alone hpos
    exact ⟨hbefore, hbehind⟩

/-- Words are never split and keywords never missed. At the place of each token, behind a keyword, an identifier or a
truth value no part of a name follows; no word character stands beside a keyword or a truth value; and one does beside
an identifier that is spelled like them. -/
theorem scan_words (file source : String) :
    ∀ t ∈ scan file source, ∃ pre post, source.toList = pre ++ t.text.toList ++ post ∧ t.span.start = byteLength pre ∧
      (isReserved t = true ∨ t.kind = .identifier → ∀ c ∈ post.head?, isNamePart c = false) ∧
      (isReserved t = true → noWord pre.getLast? = true ∧ noWord post.head? = true) ∧
      (t.kind = .identifier → t.text ∈ keywords ++ booleans →
        noWord pre.getLast? = false ∨ noWord post.head? = false) := by
  intro t ht
  obtain ⟨pre, here, hstands⟩ := stands_of_mem_scanFrom ht
  have halone := hstands.alone
  have hlexeme := hstands.lexeme
  have htaken := hstands.taken
  have hstart := hstands.start
  rw [Option.or_none] at halone hlexeme htaken
  rw [Nat.zero_add] at hstart
  refine ⟨pre, here.drop (t.kind.length pre.getLast? here), ?_, hstart, ?_, halone, ?_⟩
  · rw [htaken, List.append_assoc, List.take_append_drop, hstands.text]
  · rintro (hreserved | hkind) c hc
    · have hword := noWord_iff.mp (halone hreserved).2 c hc
      cases hpart : isNamePart c with
      | false => rfl
      | true => simp [isWord_of_isNamePart hpart] at hword
    · rw [hkind] at hlexeme hc
      exact nameLength_ends (length_pos_of_lexeme? hlexeme) hc
  · intro hkind htext
    rw [hkind] at hlexeme htaken ⊢
    exact identifier_beside hlexeme htaken htext

/-- Behind a numeral that ends in a letter the keyword is an identifier. -/
theorem scan_words_behind_numeral :
    (⟨.identifier, "if", ⟨"words", 2, 4⟩⟩ : Token) ∈ scan "words" "1eif" ∧
      ∃ pre post, "1eif".toList = pre ++ "if".toList ++ post ∧ 2 = byteLength pre ∧
        (noWord pre.getLast? = false ∨ noWord post.head? = false) := by
  have hmem : (⟨.identifier, "if", ⟨"words", 2, 4⟩⟩ : Token) ∈ scan "words" "1eif" := by decide +kernel
  obtain ⟨pre, post, htext, hstart, -, -, hbeside⟩ := scan_words "words" "1eif" _ hmem
  exact ⟨hmem, pre, post, htext, hstart, hbeside rfl (by decide)⟩

end AddressLines.Token
