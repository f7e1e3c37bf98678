import HeaderReflection.Proofs.Token.Pieces

/-!
# What may follow

How far a lexeme or a gap reaches depends on no more than the first character behind it.

* `splitLexeme_follow`: a lexeme ends at the same place before any text that may follow.
* `GapPiece.follow`, `splitGap_follow`: so do a piece of a gap, and a gap.
* `gapPiece_eq_none_iff`: where no gap starts.
-/

namespace HeaderReflection.Token

open Text (isAsciiBlank isAsciiDigit isBlank isWordChar isWordStart)

variable {cs rest after after' taken : List Char} {before before' : Bool}

/-- A space, a comma or a closing parenthesis. -/
def endsLexeme (c : Char) : Bool :=
  c == ' ' || c == ',' || c == ')'

/-- The second text may stand in the place of the first: it is empty, or starts with the same
character, or with one that ends every lexeme, unless the first one goes on with the next line. -/
def MayFollow (after after' : List Char) : Prop :=
  ∀ c ∈ after'.head?, c ∈ after.head? ∨ endsLexeme c = true ∧ ∃ d ∈ after.head?, d ≠ '\n'

namespace MayFollow

theorem refl (after : List Char) : MayFollow after after :=
  fun _ hc => .inl hc

theorem eq_nil (h : MayFollow [] after') : after' = [] := by
  cases after' with
  | nil => rfl
  | cons c after' => rcases h c rfl with hc | ⟨-, d, hd, -⟩ <;> contradiction

/-- Before a line end only a line end may stand, or nothing. -/
theorem newline (h : MayFollow ('\n' :: after) after') :
    after' = [] ∨ ∃ more, after' = '\n' :: more := by
  cases after' with
  | nil => exact .inl rfl
  | cons c after' =>
    rcases h c rfl with hc | ⟨-, d, hd, hne⟩
    · exact .inr ⟨after', by rw [Option.some.inj hc]⟩
    · exact absurd (Option.some.inj hd).symm hne

theorem append (h : MayFollow after after') (taken : List Char) :
    MayFollow (taken ++ after) (taken ++ after') := by
  cases taken with
  | nil => exact h
  | cons c taken => exact fun d hd => .inl hd

theorem of_isPrefix (h : after' <+: after) : MayFollow after after' := by
  obtain ⟨more, rfl⟩ := h
  cases after' with
  | nil => exact fun c hc => nomatch hc
  | cons d after' => exact fun c hc => .inl hc

/-- What ends no lexeme starts the one text if it starts the other. -/
theorem head_eq (h : MayFollow after after') {c : Char} (hc : endsLexeme c = false)
    (hhead : c ∈ after'.head?) : c ∈ after.head? := by
  rcases h c hhead with hsame | ⟨hends, -⟩
  · exact hsame
  · rw [hc] at hends
    cases hends

/-- What holds of the first character of a text, and of what ends every lexeme, holds of the first
character of what may stand in its place. -/
theorem forall_head {p : Char → Prop} (h : MayFollow after after')
    (hends : ∀ c ∈ [' ', ',', ')'], p c) (hp : ∀ c ∈ after.head?, p c) :
    ∀ c ∈ after'.head?, p c := by
  intro c hc
  rcases h c hc with hsame | ⟨hc, -⟩
  · exact hp c hsame
  · exact hends c (by simpa [endsLexeme, or_assoc] using hc)

end MayFollow

/-! ## Lexemes -/

theorem splitQuoted_cons {c : Char} (hc : c ≠ '\\') (quote : Char) (rest : List Char) :
    splitQuoted quote (c :: rest) =
      if c = '\n' then ([], c :: rest)
      else if c = quote then ([c], rest)
      else (c :: (splitQuoted quote rest).1, (splitQuoted quote rest).2) := by
  rw [splitQuoted]
  · intro h
    exact absurd h hc
  · intro d tail h
    exact absurd h hc

theorem splitQuoted_follow {quote : Char} (h : splitQuoted quote cs = (taken, after))
    (hf : MayFollow after after') : splitQuoted quote (taken ++ after') = (taken, after') := by
  fun_induction splitQuoted quote cs generalizing taken with
  | case1 =>
    obtain ⟨rfl, rfl⟩ := Prod.mk.inj h
    rw [hf.eq_nil]
    rfl
  | case2 =>
    obtain ⟨rfl, rfl⟩ := Prod.mk.inj h
    rw [hf.eq_nil]
    rfl
  | case3 c rest r =>
    rename_i ih
    obtain ⟨rfl, hafter⟩ := Prod.mk.inj h
    have htail : splitQuoted quote (r.1 ++ after') = (r.1, after') := ih (Prod.ext rfl hafter)
    simp only [List.cons_append, splitQuoted, htail]
  | case4 rest =>
    obtain ⟨rfl, rfl⟩ := Prod.mk.inj h
    rcases hf.newline with rfl | ⟨more, rfl⟩ <;> rfl
  | case5 rest hend hescape hline =>
    obtain ⟨rfl, rfl⟩ := Prod.mk.inj h
    have hquote : quote ≠ '\\' := fun hq => by
      cases rest with
      | nil => exact hend hq rfl
      | cons d rest => exact hescape d rest hq rfl
    rw [List.singleton_append, splitQuoted_cons hquote, if_neg hline, if_pos rfl]
  | case6 c rest hend hescape hline hquote r =>
    rename_i ih
    obtain ⟨rfl, hafter⟩ := Prod.mk.inj h
    have hc : c ≠ '\\' := fun hc => by
      cases rest with
      | nil => exact hend hc rfl
      | cons d rest => exact hescape d rest hc rfl
    rw [List.cons_append, splitQuoted_cons hc, if_neg hline, if_neg hquote,
      ih (Prod.ext rfl hafter)]

theorem length_of_splitBehind {pattern before after : List Char}
    (h : splitBehind? pattern cs = some (before, after)) : pattern.length ≤ before.length := by
  induction cs generalizing before with
  | nil =>
    simp only [splitBehind?] at h
    split at h
    · rename_i hp
      simp [hp]
    · cases h
  | cons c rest ih =>
    simp only [splitBehind?] at h
    split at h
    · rw [← (Prod.mk.inj (Option.some.inj h)).1]
    · simp only [Option.map_eq_some_iff, Prod.mk.injEq, Prod.exists] at h
      obtain ⟨_, _, hrest, rfl, rfl⟩ := h
      exact Nat.le_succ_of_le (ih hrest)

/-- The first occurrence of a pattern ends there whatever follows. -/
theorem splitBehind_follow {pattern : List Char} (hp : pattern ≠ [])
    (h : splitBehind? pattern cs = some (taken, after)) (after' : List Char) :
    splitBehind? pattern (taken ++ after') = some (taken, after') := by
  induction cs generalizing taken with
  | nil => simp [splitBehind?, hp] at h
  | cons c cs ih =>
    rw [splitBehind?] at h
    split at h
    · rename_i hprefix
      obtain ⟨rfl, rfl⟩ := Prod.mk.inj (Option.some.inj h)
      obtain ⟨d, pattern, rfl⟩ := List.exists_cons_of_ne_nil hp
      rw [List.cons_append, splitBehind?, ← List.cons_append,
        if_pos (List.isPrefixOf_iff_prefix.2 (List.prefix_append _ _)), List.drop_left]
    · rename_i hprefix
      simp only [Option.map_eq_some_iff, Prod.mk.injEq, Prod.exists] at h
      obtain ⟨before, after, hrest, rfl, rfl⟩ := h
      have hlength := length_of_splitBehind hrest
      have happ := append_splitBehind hrest
      have hprefix' : ¬pattern.isPrefixOf (c :: before ++ after') = true := by
        intro hmore
        refine hprefix (List.isPrefixOf_iff_prefix.2 ?_)
        have hshort := List.prefix_of_prefix_length_le (List.isPrefixOf_iff_prefix.1 hmore)
          (List.prefix_append (c :: before) after') (by simp; omega)
        rw [← happ, ← List.cons_append]
        exact hshort.trans (List.prefix_append _ _)
      rw [List.cons_append, splitBehind?, ← List.cons_append, if_neg hprefix', ih hrest]
      rfl

theorem splitRawString_follow (h : splitRawString cs = (taken, after))
    (hf : MayFollow after after') : splitRawString (taken ++ after') = (taken, after') := by
  unfold splitRawString at h ⊢
  dsimp only at h ⊢
  split at h
  · rename_i inside tail hbehind
    obtain ⟨rfl, rfl⟩ := Prod.mk.inj h
    have hbody := append_splitBehind hbehind
    obtain ⟨d, ds, hinside⟩ : ∃ d ds, inside = d :: ds := by
      refine List.exists_cons_of_ne_nil fun hnil => ?_
      have := length_of_splitBehind hbehind
      simp [hnil] at this
    -- The delimiter is cut off as before: the same parenthesis stands behind it.
    have hhead : ∀ c ∈ (inside ++ after').head?, decide (c ≠ '(') = false := by
      have hnot := List.head?_dropWhile_not (fun c => decide (c ≠ '(')) cs
      rw [← hbody, hinside] at hnot
      rw [hinside]
      rintro c ⟨⟩
      simpa using hnot
    have hdelimiter : ∀ c ∈ cs.takeWhile (fun c => decide (c ≠ '(')), decide (c ≠ '(') = true :=
      fun _ => List.mem_takeWhile_imp
    rw [List.append_assoc, Text.takeWhile_run hdelimiter hhead, Text.dropWhile_run hdelimiter hhead,
      splitBehind_follow (by simp) hbehind]
  · rename_i hbehind
    obtain ⟨rfl, rfl⟩ := Prod.mk.inj h
    rw [hf.eq_nil, List.append_nil, hbehind]

theorem splitNumber_follow {previous : Char} (h : splitNumber previous cs = (taken, after))
    (hf : MayFollow after after') : splitNumber previous (taken ++ after') = (taken, after') := by
  fun_induction splitNumber previous cs generalizing taken with
  | case1 =>
    obtain ⟨rfl, rfl⟩ := Prod.mk.inj h
    rw [hf.eq_nil]
    rfl
  | case2 previous c rest hgo r =>
    rename_i ih
    obtain ⟨rfl, hafter⟩ := Prod.mk.inj h
    have htail : splitNumber c (r.1 ++ after') = (r.1, after') := ih (Prod.ext rfl hafter)
    rw [List.cons_append, splitNumber, if_pos hgo]
    simp only [htail]
  | case3 previous c rest hstop =>
    obtain ⟨rfl, rfl⟩ := Prod.mk.inj h
    have hhead := hf.forall_head (p := fun d => ¬(Text.isAsciiAlphanumeric d || decide (d = '.')
      || decide (d = singleQuote) || (decide (d = '+') || decide (d = '-'))
        && ['e', 'E', 'p', 'P'].contains previous) = true)
      (by simp; decide) (by rintro d ⟨⟩; exact hstop)
    cases after' with
    | nil => rfl
    | cons d after' => rw [List.nil_append, splitNumber, if_neg (hhead d rfl)]

/-- A word is a lexeme of its own if it marks no string behind it. -/
theorem splitWord_eq_word_iff {kind : Kind} {word : List Char} :
    splitWord word rest = (kind, word, after) ↔ kind = .identifier ∧ after = rest ∧
      ∀ c ∈ rest.head?, c = doubleQuote → word ∉ rawStringMarks ∧ word ∉ encodingMarks := by
  cases rest with
  | nil => simp [splitWord, eq_comm]
  | cons c rest =>
    by_cases hquote : c = doubleQuote
    · by_cases hraw : word ∈ rawStringMarks
      · simp [splitWord, hquote, hraw]
      · by_cases hmark : word ∈ encodingMarks
        · simp [splitWord, hquote, hraw, hmark]
        · simp [splitWord, hquote, hraw, hmark, eq_comm]
    · simp [splitWord, hquote, eq_comm]

theorem exists_of_splitWord {kind : Kind} {word : List Char}
    (h : splitWord word rest = (kind, taken, after)) :
    ∃ more, taken = word ++ more ∧ rest = more ++ after := by
  have happ := append_splitWord word rest
  rw [h] at happ
  obtain ⟨more, rfl⟩ : word <+: taken := by
    unfold splitWord at h
    split at h
    · exact (Prod.mk.inj (Prod.mk.inj h).2).1 ▸ List.prefix_rfl
    · split at h
      · exact (Prod.mk.inj (Prod.mk.inj h).2).1 ▸ List.prefix_append _ _
      · split at h
        · exact (Prod.mk.inj (Prod.mk.inj h).2).1 ▸ List.prefix_append _ _
        · exact (Prod.mk.inj (Prod.mk.inj h).2).1 ▸ List.prefix_rfl
  refine ⟨more, rfl, ?_⟩
  rw [List.append_assoc, List.append_cancel_left_eq] at happ
  exact happ.symm

theorem splitWord_follow {kind : Kind} {word : List Char}
    (h : splitWord word (taken ++ after) = (kind, word ++ taken, after))
    (hf : MayFollow after after') :
    splitWord word (taken ++ after') = (kind, word ++ taken, after') := by
  cases taken with
  | nil =>
    rw [List.append_nil, List.nil_append, splitWord_eq_word_iff] at h ⊢
    exact ⟨h.1, rfl, hf.forall_head (fun c hc hq => absurd (hq ▸ hc) (by decide)) h.2.2⟩
  | cons c taken =>
    simp only [List.cons_append, splitWord] at h ⊢
    split at h
    · rename_i hraw
      simp only [Prod.mk.injEq, List.append_cancel_left_eq, List.cons.injEq, true_and] at h
      rw [if_pos hraw, splitRawString_follow (Prod.ext h.2.1 h.2.2) hf, h.1]
    · rename_i hraw
      rw [if_neg hraw]
      split at h
      · rename_i hmark
        simp only [Prod.mk.injEq, List.append_cancel_left_eq, List.cons.injEq, true_and] at h
        rw [if_pos hmark, splitQuoted_follow (Prod.ext h.2.1 h.2.2) hf, h.1]
      · simp at h

/-- A number that starts with its first character starts with it before any text that may follow. -/
theorem startsNumber_follow {c : Char} (h : splitNumber c (taken ++ after) = (taken, after))
    (hnumber : (isAsciiDigit c || (c = '.' && (taken ++ after).head?.any isAsciiDigit)) = true) :
    (isAsciiDigit c || (c = '.' && (taken ++ after').head?.any isAsciiDigit)) = true := by
  cases taken with
  | cons d taken => exact hnumber
  | nil =>
    -- A point with a digit behind it does not end a number.
    cases after with
    | nil => simp_all
    | cons d after =>
      by_cases hd : isAsciiDigit d = true
      · simp [splitNumber, Text.isAsciiAlphanumeric, hd] at h
      · simp_all

theorem not_startsNumber_follow {c : Char} {rest' : List Char} (hf : MayFollow rest rest')
    (hnumber : ¬(isAsciiDigit c || (c = '.' && rest.head?.any isAsciiDigit)) = true) :
    ¬(isAsciiDigit c || (c = '.' && rest'.head?.any isAsciiDigit)) = true := by
  simp only [Bool.or_eq_true, Bool.and_eq_true, decide_eq_true_eq, Option.any_eq_true,
    not_or, not_and, not_exists] at hnumber ⊢
  exact ⟨hnumber.1, fun hc => hf.forall_head (by decide) (hnumber.2 hc)⟩

/-- A lexeme that starts a word ends at the same place before any text that may follow. -/
theorem splitLexeme_word_follow {c : Char} {kind : Kind} (hstart : isWordStart c = true)
    (h : splitLexeme c (taken ++ after) = (kind, c :: taken, after))
    (hf : MayFollow after after') :
    splitLexeme c (taken ++ after') = (kind, c :: taken, after') := by
  rw [splitLexeme, if_pos hstart] at h ⊢
  have hword : ∀ d ∈ (taken ++ after).takeWhile isWordChar, isWordChar d = true :=
    fun _ => List.mem_takeWhile_imp
  have hends : ∀ d ∈ ((taken ++ after).dropWhile isWordChar).head?, isWordChar d = false := by
    intro d hd
    have hnot := List.head?_dropWhile_not isWordChar (taken ++ after)
    rw [hd] at hnot
    exact hnot
  generalize (taken ++ after).takeWhile isWordChar = word at *
  obtain ⟨more, htaken, hmore⟩ := exists_of_splitWord h
  rw [hmore] at h hends
  obtain rfl : taken = word ++ more := (List.cons.inj htaken).2
  have hends' := (hf.append more).forall_head (by decide) hends
  rw [List.append_assoc, Text.takeWhile_run hword hends', Text.dropWhile_run hword hends']
  exact splitWord_follow h hf

/-- A lexeme ends at the same place before any text that may follow. -/
theorem splitLexeme_follow {c : Char} {kind : Kind}
    (h : splitLexeme c (taken ++ after) = (kind, c :: taken, after))
    (hf : MayFollow after after') :
    splitLexeme c (taken ++ after') = (kind, c :: taken, after') := by
  by_cases hstart : isWordStart c = true
  · exact splitLexeme_word_follow hstart h hf
  rw [splitLexeme, if_neg hstart] at h ⊢
  split at h
  · rename_i hnumber
    simp only [Prod.mk.injEq, List.cons.injEq, true_and] at h
    have htaken : splitNumber c (taken ++ after) = (taken, after) := Prod.ext h.2.1 h.2.2
    rw [if_pos (startsNumber_follow htaken hnumber), splitNumber_follow htaken hf, h.1]
  rename_i hnumber
  rw [if_neg (not_startsNumber_follow (hf.append taken) hnumber)]
  split at h
  · rename_i hdouble
    rw [if_pos hdouble]
    simp only [Prod.mk.injEq, List.cons.injEq, true_and] at h
    rw [splitQuoted_follow (Prod.ext h.2.1 h.2.2) hf, h.1]
  rename_i hdouble
  rw [if_neg hdouble]
  split at h
  · rename_i hsingle
    rw [if_pos hsingle]
    simp only [Prod.mk.injEq, List.cons.injEq, true_and] at h
    rw [splitQuoted_follow (Prod.ext h.2.1 h.2.2) hf, h.1]
  rename_i hsingle
  rw [if_neg hsingle]
  split at h
  · rename_i hscope
    simp only [Prod.mk.injEq, List.cons.injEq, true_and] at h
    rw [if_pos (by simpa [← h.2.1] using hscope), ← h.1, ← h.2.1]
    rfl
  · rename_i hscope
    simp only [Prod.mk.injEq, List.cons.injEq, true_and] at h
    obtain ⟨rfl, rfl, -⟩ := h
    have hscope' : ¬(c = ':' && after'.head? = some ':') = true := by
      simp only [Bool.and_eq_true, decide_eq_true_eq, not_and, List.nil_append] at hscope ⊢
      intro hc hcolon
      exact hf.forall_head (p := (· ≠ ':')) (by decide)
        (fun d hd hd' => hscope hc (hd' ▸ hd)) ':' hcolon rfl
    rw [List.nil_append, if_neg hscope']

theorem exists_splitLexeme (c : Char) (rest : List Char) :
    ∃ kind taken after, splitLexeme c rest = (kind, c :: taken, after) ∧ rest = taken ++ after := by
  have happ := append_splitLexeme c rest
  obtain ⟨d, taken, htaken⟩ := List.exists_cons_of_ne_nil (splitLexeme_ne_nil c rest)
  rw [htaken] at happ
  obtain ⟨rfl, hrest⟩ := List.cons.inj happ
  exact ⟨_, taken, _, Prod.ext rfl (Prod.ext htaken rfl), hrest.symm⟩

/-! ## Gaps -/

theorem splitLineComment_follow (h : splitLineComment cs = (taken, after))
    (hf : MayFollow after after') : splitLineComment (taken ++ after') = (taken, after') := by
  obtain ⟨rfl, rfl⟩ := Prod.mk.inj h
  have hline : ∀ c ∈ cs.takeWhile (fun c => decide (c ≠ '\n')), decide (c ≠ '\n') = true :=
    fun _ => List.mem_takeWhile_imp
  have hends : ∀ c ∈ after'.head?, decide (c ≠ '\n') = false := by
    have hnot := List.head?_dropWhile_not (fun c => decide (c ≠ '\n')) cs
    cases hrest : cs.dropWhile (fun c => decide (c ≠ '\n')) with
    | nil =>
      rw [hrest] at hf
      rw [hf.eq_nil]
      exact fun c hc => nomatch hc
    | cons d rest =>
      rw [hrest] at hf hnot
      obtain rfl : d = '\n' := by simpa using hnot
      rcases hf.newline with rfl | ⟨more, rfl⟩
      · exact fun c hc => nomatch hc
      · rintro c ⟨⟩
        rfl
  unfold splitLineComment
  rw [Text.takeWhile_run hline hends, Text.dropWhile_run hline hends]

theorem splitBlockComment_cons {c : Char} (h : c = '*' → '/' ∉ rest.head?) :
    splitBlockComment (c :: rest) =
      (c :: (splitBlockComment rest).1, (splitBlockComment rest).2) := by
  rw [splitBlockComment]
  rintro rest' rfl rfl
  exact h rfl rfl

theorem splitBlockComment_follow (h : splitBlockComment cs = (taken, after))
    (hf : MayFollow after after') : splitBlockComment (taken ++ after') = (taken, after') := by
  fun_induction splitBlockComment cs generalizing taken with
  | case1 =>
    obtain ⟨rfl, rfl⟩ := Prod.mk.inj h
    rw [hf.eq_nil]
    rfl
  | case2 rest =>
    obtain ⟨rfl, rfl⟩ := Prod.mk.inj h
    rfl
  | case3 c rest hclose r =>
    rename_i ih
    obtain ⟨rfl, rfl⟩ := Prod.mk.inj h
    have htail : splitBlockComment (r.1 ++ after') = (r.1, after') := ih rfl
    have hnext : MayFollow rest (r.1 ++ after') := by
      rw [← append_splitBlockComment rest]
      exact hf.append r.1
    rw [List.cons_append, splitBlockComment_cons, htail]
    rintro rfl hslash
    refine hnext.forall_head (p := (· ≠ '/')) (by decide) (fun d hd hd' => ?_) _ hslash
      rfl
    obtain ⟨rest', rfl⟩ := List.head?_eq_some_iff.1 hd
    exact hclose rest' rfl (by rw [hd'])

theorem singleton_prefix_iff {c : Char} : [c] <+: cs ↔ c ∈ cs.head? := by
  cases cs <;> simp [eq_comm]

/-- Behind a character a directive goes on with the next line. -/
def JoinsLines (c : Char) (rest : List Char) : Prop :=
  c = '\\' ∧ (['\n'] <+: rest ∨ ['\x0d', '\n'] <+: rest)

theorem splitDirective_cons {c : Char} (hc : c ≠ '\n') (h : ¬JoinsLines c rest) :
    splitDirective (c :: rest) = (c :: (splitDirective rest).1, (splitDirective rest).2) := by
  rw [splitDirective]
  · rw [if_neg hc]
  · rintro tail rfl rfl
    exact h ⟨rfl, .inl ⟨tail, rfl⟩⟩
  · rintro tail rfl rfl
    exact h ⟨rfl, .inr ⟨tail, rfl⟩⟩

theorem JoinsLines.of_isPrefix {c : Char} {rest' : List Char} (h : JoinsLines c rest')
    (hp : rest' <+: rest) : JoinsLines c rest :=
  ⟨h.1, h.2.imp (·.trans hp) (·.trans hp)⟩

theorem splitDirective_return {tail : List Char} : splitDirective ('\x0d' :: tail) =
    ('\x0d' :: (splitDirective tail).1, (splitDirective tail).2) :=
  splitDirective_cons (by decide) fun h => absurd h.1 (by decide)

/-- The line that is joined ends in the directive, so what may follow joins no other one. -/
theorem JoinsLines.of_follow {c : Char} (hf : MayFollow (splitDirective rest).2 after')
    (h : JoinsLines c ((splitDirective rest).1 ++ after')) : JoinsLines c rest := by
  have hrest : MayFollow rest ((splitDirective rest).1 ++ after') := by
    have := hf.append (splitDirective rest).1
    rwa [append_splitDirective] at this
  refine ⟨h.1, h.2.imp (fun hline => ?_) fun hreturn => ?_⟩
  · exact singleton_prefix_iff.2 (hrest.head_eq rfl (singleton_prefix_iff.1 hline))
  · obtain ⟨more, hmore⟩ := hreturn
    obtain ⟨tail, rfl⟩ := List.head?_eq_some_iff.1
      (hrest.head_eq (c := '\x0d') rfl (by rw [← hmore]; rfl))
    rw [splitDirective_return] at hf hmore
    have htail : MayFollow tail ((splitDirective tail).1 ++ after') := by
      have := hf.append (splitDirective tail).1
      rwa [append_splitDirective] at this
    have hmore : '\n' :: more = (splitDirective tail).1 ++ after' := (List.cons.inj hmore).2
    have hline : '\n' ∈ tail.head? := htail.head_eq rfl (by rw [← hmore]; rfl)
    obtain ⟨tail', rfl⟩ := List.head?_eq_some_iff.1 hline
    exact List.prefix_append _ tail'

theorem not_joinsLines {c : Char} (hline : ∀ tail, c = '\\' → rest = '\n' :: tail → False)
    (hreturn : ∀ tail, c = '\\' → rest = '\x0d' :: '\n' :: tail → False) : ¬JoinsLines c rest := by
  rintro ⟨hc, ⟨tail, rfl⟩ | ⟨tail, rfl⟩⟩
  · exact hline tail hc rfl
  · exact hreturn tail hc rfl

theorem splitDirective_follow (h : splitDirective cs = (taken, after))
    (hf : MayFollow after after') : splitDirective (taken ++ after') = (taken, after') := by
  fun_induction splitDirective cs generalizing taken with
  | case1 =>
    obtain ⟨rfl, rfl⟩ := Prod.mk.inj h
    rw [hf.eq_nil]
    rfl
  | case2 rest r =>
    rename_i ih
    obtain ⟨rfl, rfl⟩ := Prod.mk.inj h
    have htail : splitDirective (r.1 ++ after') = (r.1, after') := ih rfl
    simp only [List.cons_append, splitDirective, htail]
  | case3 rest r =>
    rename_i ih
    obtain ⟨rfl, rfl⟩ := Prod.mk.inj h
    have htail : splitDirective (r.1 ++ after') = (r.1, after') := ih rfl
    simp only [List.cons_append, splitDirective, htail]
  | case4 rest =>
    obtain ⟨rfl, rfl⟩ := Prod.mk.inj h
    rcases hf.newline with rfl | ⟨more, rfl⟩ <;> rfl
  | case5 c rest hline hreturn hc r =>
    rename_i ih
    obtain ⟨rfl, rfl⟩ := Prod.mk.inj h
    have htail : splitDirective (r.1 ++ after') = (r.1, after') := ih rfl
    have hjoins := not_joinsLines hline hreturn
    rw [List.cons_append, splitDirective_cons hc fun h => hjoins (h.of_follow hf), htail]

/-- Whatever starts a directive belongs to it. -/
theorem splitDirective_prefix (h : taken <+: (splitDirective cs).1) :
    splitDirective taken = (taken, []) := by
  fun_induction splitDirective cs generalizing taken with
  | case1 => rw [List.prefix_nil.1 h]; rfl
  | case2 rest r =>
    rename_i ih
    rcases taken with _ | ⟨c, _ | ⟨d, more⟩⟩
    · rfl
    · rw [(List.cons_prefix_cons.1 h).1]; rfl
    · obtain ⟨hc, h1⟩ := List.cons_prefix_cons.1 h
      obtain ⟨hd, h2⟩ := List.cons_prefix_cons.1 h1
      simp only [hc, hd, splitDirective, ih h2]
  | case3 rest r =>
    rename_i ih
    rcases taken with _ | ⟨c, _ | ⟨d, _ | ⟨e, more⟩⟩⟩
    · rfl
    · rw [(List.cons_prefix_cons.1 h).1]; rfl
    · obtain ⟨hc, h1⟩ := List.cons_prefix_cons.1 h
      rw [hc, (List.cons_prefix_cons.1 h1).1]; rfl
    · obtain ⟨hc, h1⟩ := List.cons_prefix_cons.1 h
      obtain ⟨hd, h2⟩ := List.cons_prefix_cons.1 h1
      obtain ⟨he, h3⟩ := List.cons_prefix_cons.1 h2
      simp only [hc, hd, he, splitDirective, ih h3]
  | case4 rest => rw [List.prefix_nil.1 h]; rfl
  | case5 c rest hline hreturn hc r =>
    rename_i ih
    have hjoins := not_joinsLines hline hreturn
    rcases taken with _ | ⟨d, more⟩
    · rfl
    · obtain ⟨hd, hmore⟩ := List.cons_prefix_cons.1 h
      have hrest : more <+: rest := hmore.trans ⟨_, append_splitDirective rest⟩
      rw [hd, splitDirective_cons hc fun hj => hjoins (hj.of_isPrefix hrest), ih hmore]

/-- A piece of a gap, and the text behind it. -/
inductive GapPiece (lineStart : Bool) : List Char → List Char → Prop
  | blank {c : Char} {rest : List Char} (h : isAsciiBlank c = true) : GapPiece lineStart [c] rest
  | lineComment {taken rest : List Char} (h : splitLineComment (taken ++ rest) = (taken, rest)) :
    GapPiece lineStart ('/' :: '/' :: taken) rest
  | blockComment {taken rest : List Char} (h : splitBlockComment (taken ++ rest) = (taken, rest)) :
    GapPiece lineStart ('/' :: '*' :: taken) rest
  | directive {taken rest : List Char} (hline : lineStart = true)
    (h : splitDirective (taken ++ rest) = (taken, rest)) : GapPiece lineStart ('#' :: taken) rest

theorem gapPiece_eq_some_iff {piece : List Char} :
    gapPiece? before cs = some (piece, rest) ↔ cs = piece ++ rest ∧ GapPiece before piece rest := by
  constructor
  · intro h
    refine ⟨(append_gapPiece h).symm, ?_⟩
    unfold gapPiece? at h
    split at h
    · cases h
    · obtain ⟨rfl, rfl⟩ := Prod.mk.inj (Option.some.inj h)
      exact .lineComment (by rw [append_splitLineComment])
    · obtain ⟨rfl, rfl⟩ := Prod.mk.inj (Option.some.inj h)
      exact .blockComment (by rw [append_splitBlockComment])
    · split at h
      · rename_i hblank
        obtain ⟨rfl, rfl⟩ := Prod.mk.inj (Option.some.inj h)
        exact .blank hblank
      · split at h
        · rename_i hsharp
          obtain ⟨rfl, rfl⟩ := Prod.mk.inj (Option.some.inj h)
          simp only [Bool.and_eq_true, decide_eq_true_eq] at hsharp
          obtain ⟨rfl, hline⟩ := hsharp
          exact .directive hline (by rw [append_splitDirective])
        · cases h
  · rintro ⟨rfl, h⟩
    cases h with
    | blank h =>
      rename_i c
      have hslash : c ≠ '/' := by
        rintro rfl
        cases h
      unfold gapPiece?
      split
      · rename_i heq
        cases heq
      · rename_i heq
        exact absurd (List.cons.inj heq).1 hslash
      · rename_i heq
        exact absurd (List.cons.inj heq).1 hslash
      · rename_i heq
        obtain ⟨rfl, rfl⟩ := List.cons.inj heq
        rw [if_pos h]
        rfl
    | lineComment h => simp [gapPiece?, h]
    | blockComment h => simp [gapPiece?, h]
    | directive hline h => simp [gapPiece?, h, hline, show isAsciiBlank '#' = false from rfl]

theorem GapPiece.follow {piece : List Char} (h : GapPiece before piece after)
    (hf : MayFollow after after') : GapPiece before piece after' := by
  cases h with
  | blank h => exact .blank h
  | lineComment h => exact .lineComment (splitLineComment_follow h hf)
  | blockComment h => exact .blockComment (splitBlockComment_follow h hf)
  | directive hline h => exact .directive hline (splitDirective_follow h hf)

theorem GapPiece.mono {piece : List Char}
    (h : GapPiece before piece rest) (hl : before = true → before' = true) :
    GapPiece before' piece rest := by
  cases h with
  | blank h => exact .blank h
  | lineComment h => exact .lineComment h
  | blockComment h => exact .blockComment h
  | directive hline h => exact .directive (hl hline) h

/-- Where no gap starts. -/
theorem gapPiece_eq_none_iff {c : Char} :
    gapPiece? before (c :: rest) = none ↔ isAsciiBlank c = false ∧
      (c = '/' → ∀ d ∈ rest.head?, d ≠ '/' ∧ d ≠ '*') ∧ (c = '#' → before = false) := by
  by_cases hslash : c = '/'
  · subst hslash
    rcases rest with _ | ⟨d, rest⟩
    · simp [gapPiece?, show isAsciiBlank '/' = false from rfl]
    · by_cases hline : d = '/'
      · simp [gapPiece?, hline]
      · by_cases hblock : d = '*'
        · simp [gapPiece?, hblock]
        · simp [gapPiece?, hline, hblock, show isAsciiBlank '/' = false from rfl]
  · by_cases hblank : isAsciiBlank c = true
    · simp [gapPiece?, hslash, hblank]
    · simp [gapPiece?, hslash, hblank]

theorem gapPiece_none_follow {c : Char}
    (h : gapPiece? before (c :: after) = none) (hf : MayFollow after after') :
    gapPiece? before (c :: after') = none := by
  rw [gapPiece_eq_none_iff] at h ⊢
  exact ⟨h.1, fun hc => hf.forall_head (by decide) (h.2.1 hc), h.2.2⟩

@[simp] theorem atLineStart_cons (before : Bool) (c : Char) (cs : List Char) :
    atLineStart before (c :: cs) = atLineStart (c = '\n' || (before && isBlank c)) cs := rfl

theorem atLineStart_mono (h : before = true → before' = true)
    (hstart : atLineStart before cs = true) : atLineStart before' cs = true := by
  induction cs generalizing before before' with
  | nil => exact h hstart
  | cons c cs ih =>
    rw [atLineStart_cons] at hstart ⊢
    refine ih (fun hc => ?_) hstart
    simp only [Bool.or_eq_true, Bool.and_eq_true, decide_eq_true_eq] at hc ⊢
    exact hc.imp_right (And.imp_left h)

/-- Blanks in front of a text belong to its gap. -/
theorem splitGap_blanks {bs : List Char} (h : ∀ b ∈ bs, isAsciiBlank b = true) (before : Bool)
    (rest : List Char) :
    splitGap before (bs ++ rest) =
      (bs ++ (splitGap (atLineStart before bs) rest).1,
        (splitGap (atLineStart before bs) rest).2) := by
  induction bs generalizing before with
  | nil => rfl
  | cons b bs ih =>
    have hpiece : gapPiece? before (b :: (bs ++ rest)) = some ([b], bs ++ rest) :=
      gapPiece_eq_some_iff.2 ⟨rfl, .blank (h b List.mem_cons_self)⟩
    rw [List.cons_append, splitGap_of_some hpiece,
      ih (fun c hc => h c (List.mem_cons_of_mem _ hc))]
    rfl

/-- No piece of a gap starts behind the gap. -/
theorem gapPiece_behind_splitGap {gap : List Char} (h : splitGap before cs = (gap, rest)) :
    gapPiece? (atLineStart before gap) rest = none := by
  fun_induction splitGap before cs generalizing gap with
  | case1 before cs hnone =>
    obtain ⟨rfl, rfl⟩ := Prod.mk.inj h
    exact hnone
  | case2 before cs piece tail hpiece more rest' hmore ih =>
    obtain ⟨rfl, rfl⟩ := Prod.mk.inj h
    rw [atLineStart_append]
    exact ih hmore

/-- A gap ends at the same place before any text that may follow and starts with no gap, also at
the start of a line. -/
theorem splitGap_follow {gap : List Char} (h : splitGap before cs = (gap, after))
    (hle : before = true → before' = true) (hf : MayFollow after after')
    (hnone : gapPiece? (atLineStart before' gap) after' = none) :
    splitGap before' (gap ++ after') = (gap, after') := by
  fun_induction splitGap before cs generalizing gap before' with
  | case1 before cs _ =>
    obtain ⟨rfl, rfl⟩ := Prod.mk.inj h
    exact splitGap_of_none hnone
  | case2 before cs piece tail hpiece more rest' hmore ih =>
    obtain ⟨rfl, rfl⟩ := Prod.mk.inj h
    rw [atLineStart_append] at hnone
    have htail : MayFollow tail (more ++ after') := by
      have := hf.append more
      have happ := append_splitGap (atLineStart before piece) tail
      rw [hmore] at happ
      rwa [happ] at this
    have hpiece' : gapPiece? before' (piece ++ (more ++ after')) = some (piece, more ++ after') :=
      gapPiece_eq_some_iff.2 ⟨rfl, ((gapPiece_eq_some_iff.1 hpiece).2.mono hle).follow htail⟩
    rw [List.append_assoc, splitGap_of_some hpiece', ih hmore (atLineStart_mono hle) hnone]

end HeaderReflection.Token
