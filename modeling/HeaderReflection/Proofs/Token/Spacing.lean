import HeaderReflection.Proofs.Token.Lexemes

/-!
# Spacing

Blanks of any number and kind may stand before a token, and a lexeme that a space ends is ended by
every other blank too.

* `pieces_blanks`: blanks in front of a text belong to the gap of its first piece.
* `splitLexeme_stop`: a lexeme that a space ends, before blanks and commas.
* `pieces_append`: a text that ends with a complete token is cut alike before blanks and commas.
-/

namespace HeaderReflection

namespace Piece

/-- The piece behind more of a gap. -/
def indent (s : String) (p : Piece) : Piece :=
  { p with gap := s ++ p.gap }

variable {ps : List Piece}

theorem spell_indent (hne : ps ≠ []) (s : String) :
    spell (ps.modifyHead (indent s)) = s.toList ++ spell ps := by
  cases ps with
  | nil => exact absurd rfl hne
  | cons p ps => simp [indent]

@[simp] theorem map_text_indent (s : String) (ps : List Piece) :
    (ps.modifyHead (indent s)).map text = ps.map text := by
  cases ps <;> rfl

end Piece

namespace Token

open Text (isAsciiAlphanumeric isAsciiBlank isAsciiDigit isBlank isWordChar isWordStart)

variable {cs rest : List Char}

/-! ## Blanks before a token -/

/-- Blanks in front of a text belong to the gap of its first piece. -/
theorem pieces_blanks {bs : List Char} (h : ∀ b ∈ bs, isAsciiBlank b = true) (before : Bool)
    (rest : List Char) :
    pieces before (bs ++ rest) =
      (pieces (atLineStart before bs) rest).modifyHead (Piece.indent (String.ofList bs)) := by
  have hgap := splitGap_blanks h before rest
  rcases hg : splitGap (atLineStart before bs) rest with ⟨gap, _ | ⟨c, tail⟩⟩
  · rw [hg] at hgap
    rw [pieces_of_splitGap_eq_nil (by rw [hgap]), pieces_of_splitGap_eq_nil (by rw [hg])]
    rfl
  · rw [hg] at hgap
    rw [pieces_of_splitGap hgap, pieces_of_splitGap hg, List.modifyHead_cons, atLineStart_append,
      String.ofList_append]
    rfl

theorem isAsciiBlank_space : ∀ b ∈ [' '], isAsciiBlank b = true := by
  decide

theorem pieces_space (rest : List Char) :
    pieces false (' ' :: rest) = (pieces false rest).modifyHead (Piece.indent " ") :=
  pieces_blanks isAsciiBlank_space false rest

/-- What a lexeme starts that is no blank is cut alike at the start of a line. -/
theorem pieces_of_opensLexeme {c : Char} (hopens : opensLexeme c = true) (hc : isBlank c = false)
    (before : Bool) (rest : List Char) :
    pieces before (c :: rest) = pieces false (c :: rest) := by
  rw [pieces_of_splitGap (splitGap_of_opensLexeme hopens before rest),
    pieces_of_splitGap (splitGap_of_opensLexeme hopens false rest)]
  exact congrArg (fun lineStart => _ :: pieces lineStart _) (atLineStart_splitLexeme hc rest before)

/-- A mark is one token wherever it stands. -/
theorem pieces_mark {c : Char} (hc : Reads.isMark c = true) (before : Bool) (rest : List Char) :
    pieces before (c :: rest) = ⟨"", .punctuation, String.ofList [c]⟩ :: pieces false rest :=
  (SpellsPieces.mark hc fun _ => true).pieces_append rest (by simp) before

/-- A word is one token if the next character ends it. -/
theorem pieces_word {word : String} (h : IsWord word.toList)
    (hrest : ∀ c ∈ rest.head?, Reads.endsWord c = true) (before : Bool) :
    pieces before (word.toList ++ rest) = ⟨"", .identifier, word⟩ :: pieces false rest :=
  (SpellsPieces.word h).pieces_append rest hrest before

/-- Blanks alone are no tokens. -/
theorem pieces_of_blanks {bs : List Char} (h : ∀ b ∈ bs, isAsciiBlank b = true) (before : Bool) :
    pieces before bs = [] := by
  have hpieces := pieces_blanks h before []
  have hend : pieces (atLineStart before bs) [] = [] :=
    pieces_of_splitGap_eq_nil (by rw [splitGap_of_none rfl])
  rwa [List.append_nil, hend] at hpieces

/-! ## What ends a lexeme -/

/-- A blank or a comma. -/
def endsEntry (c : Char) : Bool :=
  isAsciiBlank c || c == ','

/-- A blank or a comma goes on with no word, no number and no comment. -/
theorem apart_of_endsEntry {c : Char} (h : endsEntry c = true) :
    isWordChar c = false ∧ isAsciiDigit c = false ∧
      (isAsciiAlphanumeric c || c = '.' || c = singleQuote || c = '+' || c = '-') = false ∧
      c ∉ [doubleQuote, ':', '/', '*'] := by
  have hmem : c ∈ [' ', '\t', '\n', '\x0c', '\x0d', ','] := by
    simpa [endsEntry, isAsciiBlank, or_assoc] using h
  clear h
  revert c
  decide

theorem mem_getLast_cons {c d : Char} (h : d ∈ cs.getLast?) : d ∈ (c :: cs).getLast? := by
  cases cs with
  | nil => cases h
  | cons e cs => rwa [List.getLast?_cons_of_ne_nil (by simp)]

/-- A quoted text that ends before a space ends with its quote, whatever follows then. -/
theorem splitQuoted_stop {quote : Char} (h : splitQuoted quote (cs ++ [' ']) = (cs, [' '])) :
    quote ∈ cs.getLast? ∧ ∀ rest, splitQuoted quote (cs ++ rest) = (cs, rest) := by
  generalize hds : cs ++ [' '] = ds at h
  generalize hafter : [' '] = after at h
  clear hds
  fun_induction splitQuoted quote ds generalizing cs with
  | case1 => cases hafter ▸ (Prod.mk.inj h).2
  | case2 => cases hafter ▸ (Prod.mk.inj h).2
  | case3 c more r =>
    rename_i ih
    obtain ⟨rfl, hmore⟩ := Prod.mk.inj h
    have htail : quote ∈ r.1.getLast? ∧ ∀ rest, splitQuoted quote (r.1 ++ rest) = (r.1, rest) :=
      ih (Prod.ext rfl hmore)
    exact ⟨mem_getLast_cons (mem_getLast_cons htail.1),
      fun rest => by simp only [List.cons_append, splitQuoted, htail.2 rest]⟩
  | case4 more => cases hafter ▸ (Prod.mk.inj h).2
  | case5 more hend hescape hline =>
    obtain ⟨rfl, -⟩ := Prod.mk.inj h
    have hquote : quote ≠ '\\' := fun hq => by
      cases more with
      | nil => exact hend hq rfl
      | cons d more => exact hescape d more hq rfl
    refine ⟨rfl, fun rest => ?_⟩
    rw [List.singleton_append, splitQuoted_cons hquote, if_neg hline, if_pos rfl]
  | case6 c more hend hescape hline hquote r =>
    rename_i ih
    obtain ⟨rfl, hmore⟩ := Prod.mk.inj h
    have hc : c ≠ '\\' := fun hc => by
      cases more with
      | nil => exact hend hc rfl
      | cons d more => exact hescape d more hc rfl
    have htail := ih (Prod.ext rfl hmore)
    refine ⟨mem_getLast_cons htail.1, fun rest => ?_⟩
    rw [List.cons_append, splitQuoted_cons hc, if_neg hline, if_neg hquote, htail.2]

/-- What is cut behind a pattern ends with it. -/
theorem suffix_of_splitBehind {pattern before after : List Char}
    (h : splitBehind? pattern cs = some (before, after)) : pattern <:+ before := by
  induction cs generalizing before with
  | nil =>
    simp only [splitBehind?] at h
    split at h
    · rename_i hpattern
      exact hpattern ▸ List.nil_suffix
    · cases h
  | cons c more ih =>
    simp only [splitBehind?] at h
    split at h
    · exact (Prod.mk.inj (Option.some.inj h)).1 ▸ List.suffix_refl _
    · simp only [Option.map_eq_some_iff, Prod.mk.injEq, Prod.exists] at h
      obtain ⟨_, _, hmore, rfl, rfl⟩ := h
      exact (ih hmore).trans (List.suffix_cons _ _)

/-- A raw string that ends before a space ends with a quote, whatever follows then. -/
theorem splitRawString_stop (h : splitRawString (cs ++ [' ']) = (cs, [' '])) :
    doubleQuote ∈ cs.getLast? ∧ ∀ rest, splitRawString (cs ++ rest) = (cs, rest) := by
  unfold splitRawString at h ⊢
  dsimp only at h ⊢
  split at h
  · rename_i inside after hbehind
    obtain ⟨hcs, rfl⟩ := Prod.mk.inj h
    have hbody := append_splitBehind hbehind
    obtain ⟨body, hsuffix⟩ := suffix_of_splitBehind hbehind
    have hdelimiter : ∀ c ∈ (cs ++ [' ']).takeWhile (fun c => decide (c ≠ '(')),
        decide (c ≠ '(') = true := fun _ => List.mem_takeWhile_imp
    have hhead : ∀ rest, ∀ c ∈ (inside ++ rest).head?, decide (c ≠ '(') = false := by
      have hnot := List.head?_dropWhile_not (fun c => decide (c ≠ '(')) (cs ++ [' '])
      rw [← hbody] at hnot
      cases inside with
      | nil => exact absurd (length_of_splitBehind hbehind) (by simp)
      | cons d inside =>
        rintro rest c ⟨⟩
        simpa using hnot
    generalize (cs ++ [' ']).takeWhile (fun c => decide (c ≠ '(')) = delimiter at *
    refine ⟨?_, fun rest => ?_⟩
    · rw [← hcs, ← hsuffix, ← List.append_assoc, ← List.append_assoc, List.getLast?_concat]
      rfl
    · rw [← hcs, List.append_assoc, Text.takeWhile_run hdelimiter (hhead rest),
        Text.dropWhile_run hdelimiter (hhead rest), splitBehind_follow (by simp) hbehind]
  · cases (Prod.mk.inj h).2

theorem splitNumber_stop {previous : Char} (h : splitNumber previous (cs ++ [' ']) = (cs, [' ']))
    (hrest : ∀ d ∈ rest.head?, endsEntry d = true) :
    splitNumber previous (cs ++ rest) = (cs, rest) := by
  induction cs generalizing previous with
  | nil =>
    cases rest with
    | nil => rfl
    | cons d rest =>
      have hapart := (apart_of_endsEntry (hrest d rfl)).2.2.1
      simp only [Bool.or_eq_false_iff] at hapart
      simp [splitNumber, hapart]
  | cons c cs ih =>
    rw [List.cons_append, splitNumber] at h ⊢
    split at h
    · rename_i hgo
      simp only [Prod.mk.injEq, List.cons.injEq, true_and] at h
      rw [if_pos hgo, ih (Prod.ext h.1 h.2)]
    · cases (Prod.mk.inj h).1

theorem splitWord_stop {kind : Kind} {word : List Char}
    (h : splitWord word (cs ++ [' ']) = (kind, word ++ cs, [' ']))
    (hrest : ∀ d ∈ rest.head?, endsEntry d = true) :
    splitWord word (cs ++ rest) = (kind, word ++ cs, rest) := by
  cases cs with
  | nil =>
    rw [List.append_nil, List.nil_append, splitWord_eq_word_iff] at h ⊢
    refine ⟨h.1, rfl, fun d hd hquote => ?_⟩
    exact absurd (hquote ▸ List.mem_cons_self) (apart_of_endsEntry (hrest d hd)).2.2.2
  | cons c cs =>
    simp only [List.cons_append, splitWord] at h ⊢
    split at h
    · rename_i hraw
      simp only [Prod.mk.injEq, List.append_cancel_left_eq, List.cons.injEq, true_and] at h
      rw [if_pos hraw, (splitRawString_stop (Prod.ext h.2.1 h.2.2)).2, h.1]
    · rename_i hraw
      rw [if_neg hraw]
      split at h
      · rename_i hmark
        simp only [Prod.mk.injEq, List.append_cancel_left_eq, List.cons.injEq, true_and] at h
        rw [if_pos hmark, (splitQuoted_stop (Prod.ext h.2.1 h.2.2)).2, h.1]
      · simp at h

theorem splitLexeme_word_stop {c : Char} {kind : Kind} (hstart : isWordStart c = true)
    (h : splitLexeme c (cs ++ [' ']) = (kind, c :: cs, [' ']))
    (hrest : ∀ d ∈ rest.head?, endsEntry d = true) :
    splitLexeme c (cs ++ rest) = (kind, c :: cs, rest) := by
  rw [splitLexeme, if_pos hstart] at h ⊢
  have hword : ∀ d ∈ (cs ++ [' ']).takeWhile isWordChar, isWordChar d = true :=
    fun _ => List.mem_takeWhile_imp
  have hends : ∀ d ∈ ((cs ++ [' ']).dropWhile isWordChar).head?, isWordChar d = false := by
    intro d hd
    have hnot := List.head?_dropWhile_not isWordChar (cs ++ [' '])
    rw [hd] at hnot
    exact hnot
  generalize (cs ++ [' ']).takeWhile isWordChar = word at *
  obtain ⟨more, htaken, hmore⟩ := exists_of_splitWord h
  rw [hmore] at h hends
  obtain rfl : cs = word ++ more := (List.cons.inj htaken).2
  have hends' : ∀ d ∈ (more ++ rest).head?, isWordChar d = false := by
    cases more with
    | nil => exact fun d hd => (apart_of_endsEntry (hrest d hd)).1
    | cons e more => exact hends
  rw [List.append_assoc, Text.takeWhile_run hword hends', Text.dropWhile_run hword hends']
  exact splitWord_stop h hrest

theorem not_startsNumber_stop {c : Char} (hrest : ∀ d ∈ rest.head?, endsEntry d = true)
    (h : ¬(isAsciiDigit c || (c = '.' && (cs ++ [' ']).head?.any isAsciiDigit)) = true) :
    ¬(isAsciiDigit c || (c = '.' && (cs ++ rest).head?.any isAsciiDigit)) = true := by
  cases cs with
  | cons d cs => exact h
  | nil =>
    simp only [Bool.or_eq_true, Bool.and_eq_true, decide_eq_true_eq, Option.any_eq_true,
      not_or, not_and, not_exists] at h ⊢
    refine ⟨h.1, fun _ d hd hdigit => ?_⟩
    rw [(apart_of_endsEntry (hrest d hd)).2.1] at hdigit
    cases hdigit

/-- A lexeme that a space ends is also ended by every other blank, by a comma and by the end of the
text. -/
theorem splitLexeme_stop {c : Char} {kind : Kind}
    (h : splitLexeme c (cs ++ [' ']) = (kind, c :: cs, [' ']))
    (hrest : ∀ d ∈ rest.head?, endsEntry d = true) :
    splitLexeme c (cs ++ rest) = (kind, c :: cs, rest) := by
  by_cases hstart : isWordStart c = true
  · exact splitLexeme_word_stop hstart h hrest
  rw [splitLexeme, if_neg hstart] at h ⊢
  split at h
  · rename_i hnumber
    simp only [Prod.mk.injEq, List.cons.injEq, true_and] at h
    have htaken : splitNumber c (cs ++ [' ']) = (cs, [' ']) := Prod.ext h.2.1 h.2.2
    rw [if_pos (startsNumber_follow htaken hnumber), splitNumber_stop htaken hrest, h.1]
  rename_i hnumber
  rw [if_neg (not_startsNumber_stop hrest hnumber)]
  split at h
  · rename_i hdouble
    rw [if_pos hdouble]
    simp only [Prod.mk.injEq, List.cons.injEq, true_and] at h
    rw [(splitQuoted_stop (Prod.ext h.2.1 h.2.2)).2, h.1]
  rename_i hdouble
  rw [if_neg hdouble]
  split at h
  · rename_i hsingle
    rw [if_pos hsingle]
    simp only [Prod.mk.injEq, List.cons.injEq, true_and] at h
    rw [(splitQuoted_stop (Prod.ext h.2.1 h.2.2)).2, h.1]
  rename_i hsingle
  rw [if_neg hsingle]
  split at h
  · rename_i hscope
    simp only [Prod.mk.injEq, List.cons.injEq, true_and] at h
    obtain ⟨hkind, rfl, -⟩ := h
    simp only [Bool.and_eq_true, decide_eq_true_eq] at hscope
    rw [if_pos (by simp [hscope.1]), ← hkind]
    rfl
  · rename_i hscope
    simp only [Prod.mk.injEq, List.cons.injEq, true_and] at h
    obtain ⟨rfl, rfl, -⟩ := h
    have hscope' : ¬(c = ':' && rest.head? = some ':') = true := by
      simp only [Bool.and_eq_true, decide_eq_true_eq, not_and]
      intro _ hcolon
      exact absurd (apart_of_endsEntry (hrest ':' hcolon)).2.2.2 (by decide)
    rw [List.nil_append, if_neg hscope']

theorem newline_notMem_splitNumber (previous : Char) (cs : List Char) :
    '\n' ∉ (splitNumber previous cs).1 := by
  fun_induction splitNumber previous cs with
  | case1 => simp
  | case2 previous c rest hgo r ih =>
    rw [List.mem_cons, not_or]
    refine ⟨?_, ih⟩
    rintro rfl
    simp [show isAsciiAlphanumeric '\n' = false from rfl, singleQuote] at hgo
  | case3 => simp

theorem newline_or_quote_of_splitWord {kind : Kind} {word : List Char} (hword : '\n' ∉ word)
    (h : splitWord word (cs ++ [' ']) = (kind, word ++ cs, [' '])) :
    '\n' ∉ word ++ cs ∨ doubleQuote ∈ (word ++ cs).getLast? := by
  cases cs with
  | nil => exact .inl (by rwa [List.append_nil])
  | cons c cs =>
    refine .inr ?_
    rw [List.getLast?_append_of_ne_nil _ (by simp)]
    simp only [List.cons_append, splitWord] at h
    split at h
    · simp only [Prod.mk.injEq, List.append_cancel_left_eq, List.cons.injEq, true_and] at h
      exact mem_getLast_cons (splitRawString_stop (Prod.ext h.2.1 h.2.2)).1
    · split at h
      · simp only [Prod.mk.injEq, List.append_cancel_left_eq, List.cons.injEq, true_and] at h
        exact mem_getLast_cons (splitQuoted_stop (Prod.ext h.2.1 h.2.2)).1
      · simp at h

/-- A lexeme that a space ends has no line end in it, or its last character is a quote. -/
theorem newline_or_quote_of_splitLexeme {c : Char} {kind : Kind} (hc : isAsciiBlank c = false)
    (h : splitLexeme c (cs ++ [' ']) = (kind, c :: cs, [' '])) :
    '\n' ∉ c :: cs ∨ doubleQuote ∈ (c :: cs).getLast? ∨ singleQuote ∈ (c :: cs).getLast? := by
  have hline : c ≠ '\n' := by
    rintro rfl
    cases hc
  rw [splitLexeme] at h
  split at h
  · rename_i hstart
    have hword : '\n' ∉ c :: (cs ++ [' ']).takeWhile isWordChar := by
      rw [List.mem_cons, not_or]
      exact ⟨hline.symm, fun hmem => absurd (List.mem_takeWhile_imp hmem) (by decide)⟩
    generalize (cs ++ [' ']).takeWhile isWordChar = word at *
    obtain ⟨more, htaken, hmore⟩ := exists_of_splitWord h
    rw [hmore, htaken] at h
    rw [htaken]
    exact (newline_or_quote_of_splitWord hword h).imp_right .inl
  split at h
  · simp only [Prod.mk.injEq, List.cons.injEq, true_and] at h
    rw [List.mem_cons, not_or]
    exact .inl ⟨hline.symm, h.2.1 ▸ newline_notMem_splitNumber c _⟩
  split at h
  · rename_i hdouble
    simp only [Prod.mk.injEq, List.cons.injEq, true_and] at h
    exact .inr (.inl (hdouble ▸ mem_getLast_cons (splitQuoted_stop (Prod.ext h.2.1 h.2.2)).1))
  split at h
  · rename_i hsingle
    simp only [Prod.mk.injEq, List.cons.injEq, true_and] at h
    exact .inr (.inr (hsingle ▸ mem_getLast_cons (splitQuoted_stop (Prod.ext h.2.1 h.2.2)).1))
  split at h
  · simp only [Prod.mk.injEq, List.cons.injEq, true_and] at h
    rw [← h.2.1]
    exact .inl (by simp [hline.symm])
  · simp only [Prod.mk.injEq, List.cons.injEq, true_and] at h
    rw [← h.2.1]
    exact .inl (by simp [hline.symm])

/-- Behind a lexeme that a space ends no line starts. -/
theorem atLineStart_stop {c : Char} {kind : Kind} (hc : isAsciiBlank c = false)
    (h : splitLexeme c (cs ++ [' ']) = (kind, c :: cs, [' '])) :
    atLineStart false (c :: cs) = false := by
  rcases newline_or_quote_of_splitLexeme hc h with hline | hquote | hquote
  · exact atLineStart_eq_false hline
  · exact atLineStart_of_getLast hquote rfl false
  · exact atLineStart_of_getLast hquote rfl false

/-! ## Texts that are tokens to their ends -/

/-- The text is tokens up to its end: a space behind it belongs to none. -/
def Spelled (before : Bool) (cs : List Char) : Prop :=
  Piece.spell (pieces before (cs ++ [' '])) = cs

/-- The first token of a text that is tokens to its end. -/
theorem Spelled.exists_first {before : Bool} (h : Spelled before cs) (hne : cs ≠ []) :
    ∃ gap c kind taken behind, cs = gap ++ c :: (taken ++ behind) ∧
      splitGap before (cs ++ [' ']) = (gap, c :: (taken ++ (behind ++ [' ']))) ∧
      splitLexeme c (taken ++ (behind ++ [' '])) = (kind, c :: taken, behind ++ [' ']) ∧
      Spelled (atLineStart (atLineStart before gap) (c :: taken)) behind := by
  have happ := append_splitGap before (cs ++ [' '])
  unfold Spelled at h
  rcases hg : splitGap before (cs ++ [' ']) with ⟨gap, _ | ⟨c, after⟩⟩
  · rw [pieces_of_splitGap_eq_nil (by rw [hg])] at h
    exact absurd h.symm hne
  obtain ⟨kind, taken, tail, hlex, rfl⟩ := exists_splitLexeme c after
  rw [hg] at happ
  rw [pieces_of_splitGap hg, hlex] at h
  simp only [Piece.spell_cons, String.toList_ofList] at h
  generalize hbehind : Piece.spell (pieces _ tail) = behind at h
  have htail : tail = behind ++ [' '] := by
    rw [← h] at happ
    simpa using happ
  subst htail
  refine ⟨gap, c, kind, taken, behind, ?_, rfl, hlex, hbehind⟩
  rw [← h]
  simp

theorem gapPiece_stop {before : Bool} {c : Char}
    (h : gapPiece? before (c :: (cs ++ [' '])) = none)
    (hrest : ∀ d ∈ rest.head?, endsEntry d = true) :
    gapPiece? before (c :: (cs ++ rest)) = none := by
  cases cs with
  | cons d cs => exact gapPiece_none_follow h fun e he => .inl he
  | nil =>
    rw [gapPiece_eq_none_iff] at h ⊢
    refine ⟨h.1, fun _ d hd => ?_, h.2.2⟩
    have hapart := (apart_of_endsEntry (hrest d hd)).2.2.2
    simp only [List.mem_cons, not_or] at hapart
    exact ⟨hapart.2.2.1, hapart.2.2.2.1⟩

/-- What is tokens to its end is cut alike before blanks, before a comma and at the end of the
text. -/
theorem pieces_append {before : Bool} (h : Spelled before cs)
    (hrest : ∀ d ∈ rest.head?, endsEntry d = true) :
    pieces before (cs ++ rest) =
      pieces before (cs ++ [' ']) ++ pieces (atLineStart before cs) rest := by
  induction hn : cs.length using Nat.strong_induction_on generalizing before cs with
  | _ n ih =>
    by_cases hne : cs = []
    · subst hne
      rw [List.nil_append, List.nil_append, pieces_of_blanks isAsciiBlank_space]
      rfl
    obtain ⟨gap, c, kind, taken, behind, hcs, hg, hlex, hbehind⟩ := h.exists_first hne
    have hshort : behind.length < n := by
      rw [← hn, hcs]
      simp only [List.length_append, List.length_cons]
      omega
    have hnone := gapPiece_behind_splitGap hg
    rw [← List.append_assoc] at hnone
    replace hnone := gapPiece_stop hnone hrest
    rw [List.append_assoc] at hnone
    have hg' : splitGap before (cs ++ rest) = (gap, c :: (taken ++ (behind ++ rest))) := by
      have hmay : MayFollow (c :: (taken ++ (behind ++ [' '])))
          (c :: (taken ++ (behind ++ rest))) := fun d hd => .inl hd
      have hfollow := splitGap_follow hg id hmay hnone
      rw [← hfollow, hcs]
      simp
    -- Only the last lexeme of the text meets what stands behind it.
    have hlex' : splitLexeme c (taken ++ (behind ++ rest)) =
        (kind, c :: taken, behind ++ rest) := by
      cases behind with
      | nil => exact splitLexeme_stop hlex hrest
      | cons d behind => exact splitLexeme_follow hlex fun e he => .inl he
    have hline : atLineStart before cs =
        atLineStart (atLineStart (atLineStart before gap) (c :: taken)) behind := by
      rw [hcs, ← List.cons_append, atLineStart_append, atLineStart_append]
    rw [pieces_of_splitGap hg', pieces_of_splitGap hg, hlex, hlex', hline]
    exact congrArg _ (ih _ hshort hbehind rfl)

/-- With a space behind it, the text is one token. -/
def IsToken (w : String) : Prop :=
  ∃ kind, pieces false (w.toList ++ [' ']) = [⟨"", kind, w⟩]

namespace IsToken

variable {w : String}

theorem spelled (h : IsToken w) : Spelled false w.toList := by
  obtain ⟨kind, hw⟩ := h
  rw [Spelled, hw]
  simp

theorem ne_nil (h : IsToken w) : w.toList ≠ [] := by
  obtain ⟨kind, hw⟩ := h
  intro hnil
  rw [hnil, List.nil_append, pieces_of_blanks (by decide)] at hw
  cases hw

/-- Behind a token no line starts. -/
theorem atLineStart (h : IsToken w) : Token.atLineStart false w.toList = false := by
  obtain ⟨gap, c, kind, taken, behind, hcs, hg, hlex, -⟩ := h.spelled.exists_first h.ne_nil
  obtain ⟨kind', hw⟩ := h
  rw [pieces_of_splitGap hg, hlex] at hw
  have hfirst := (List.cons.inj hw).1
  obtain rfl : gap = [] := by simpa using congrArg (·.gap.toList) hfirst
  have htext : c :: taken = w.toList := by simpa using congrArg (·.text.toList) hfirst
  rw [← htext] at hcs ⊢
  obtain rfl : behind = [] := by simpa using hcs
  exact atLineStart_stop (gapPiece_eq_none_iff.1 (gapPiece_behind_splitGap hg)).1 hlex

end IsToken

/-- Tokens with spaces between them are the tokens of their text. -/
theorem spelled_words {ws : List String} (hne : ws ≠ []) (h : ∀ w ∈ ws, IsToken w) :
    Spelled false (" ".intercalate ws).toList ∧
      (pieces false ((" ".intercalate ws).toList ++ [' '])).map Piece.text = ws := by
  induction ws with
  | nil => exact absurd rfl hne
  | cons w ws ih =>
    have hw := h w List.mem_cons_self
    obtain ⟨kind, hpieces⟩ := h w List.mem_cons_self
    cases ws with
    | nil =>
      rw [String.intercalate_singleton]
      exact ⟨hw.spelled, by rw [hpieces]; rfl⟩
    | cons v ws =>
      obtain ⟨hspelled, htexts⟩ := ih (by simp) fun u hu => h u (List.mem_cons_of_mem _ hu)
      have htext : (" ".intercalate (w :: v :: ws)).toList =
          w.toList ++ ' ' :: (" ".intercalate (v :: ws)).toList := by
        rw [String.intercalate_cons_cons]
        simp
      generalize (" ".intercalate (v :: ws)).toList = tail at *
      have hall : pieces false (w.toList ++ ' ' :: (tail ++ [' '])) =
          ⟨"", kind, w⟩ :: (pieces false (tail ++ [' '])).modifyHead (Piece.indent " ") := by
        rw [pieces_append hw.spelled (by rintro d ⟨⟩; rfl), hpieces, hw.atLineStart, pieces_space]
        rfl
      have htail : pieces false (tail ++ [' ']) ≠ [] := by
        intro hnil
        rw [hnil] at htexts
        cases htexts
      rw [htext, Spelled, List.append_assoc, List.cons_append, hall]
      constructor
      · rw [Piece.spell_cons, Piece.spell_indent htail, hspelled]
        simp
      · rw [List.map_cons, Piece.map_text_indent, htexts]

end Token

end HeaderReflection
