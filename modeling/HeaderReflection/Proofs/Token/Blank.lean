import HeaderReflection.Proofs.Token.Follow

/-!
# Blanked gaps

What stands between the tokens of a text is mute: with blanks in the place of its comments and
directives a text has the same tokens at the same places. A number sign alone looks back at what
stands before it in its line.

* `Drift`: two readings of a line differ in no more than whether the line has started.
* `isMute`: what may be blanked for all number signs behind it.
* `alike_lexFrom_blankFrom`: the tokens of a text with chosen comments and directives blanked.
-/

namespace HeaderReflection.Token

open Text (Position isAsciiBlank isAsciiDigit isBlank isWordStart)

variable {cs rest after after' taken piece gap : List Char} {before before' : Bool}

/-- Blanks in the place of a text: its line ends, and a space for every other character. -/
def blank (cs : List Char) : List Char :=
  cs.map fun c => if c = '\n' then c else ' '

theorem past_blank (p : Position) (cs : List Char) : p.past (blank cs) = p.past cs := by
  induction cs generalizing p with
  | nil => rfl
  | cons c cs ih =>
    have hstep : p.advance (if c = '\n' then c else ' ') = p.advance c := by
      split
      · rfl
      · rename_i hc
        simp [Position.advance, hc]
    simp only [blank, List.map_cons, Position.past_cons, hstep]
    exact ih _

theorem isAsciiBlank_of_mem_blank {c : Char} (h : c ∈ blank cs) : isAsciiBlank c = true := by
  obtain ⟨d, -, rfl⟩ := List.mem_map.1 h
  split
  · rename_i hd
    rw [hd]
    rfl
  · rfl

/-! ## The start of a line -/

theorem newline_mem_blank (h : '\n' ∈ cs) : '\n' ∈ blank cs :=
  List.mem_map.2 ⟨'\n', h, rfl⟩

/-- Behind a line end it does not matter how the line before it started. -/
theorem atLineStart_of_newline (h : '\n' ∈ cs) :
    atLineStart before cs = atLineStart before' cs := by
  induction cs generalizing before before' with
  | nil => cases h
  | cons c cs ih =>
    rw [atLineStart_cons, atLineStart_cons]
    rcases List.mem_cons.1 h with rfl | h
    · rfl
    · exact ih h

theorem atLineStart_blank_mono (h : before = true → before' = true)
    (hstart : atLineStart before cs = true) : atLineStart before' (blank cs) = true := by
  induction cs generalizing before before' with
  | nil => exact h hstart
  | cons c cs ih =>
    simp only [blank, List.map_cons, atLineStart_cons] at hstart ⊢
    refine ih (fun hc => ?_) hstart
    simp only [Bool.or_eq_true, Bool.and_eq_true, decide_eq_true_eq] at hc ⊢
    split
    · exact .inl ‹_›
    · rename_i hline
      exact .inr ⟨h (hc.resolve_left hline).1, rfl⟩

/-- A number sign follows in the line, with no more than blanks and comments before it. -/
def sharpAhead (cs : List Char) : Bool :=
  match cs with
  | [] => false
  | c :: rest =>
    if c = '#' then true
    else match _h : gapPiece? false (c :: rest) with
      | some (piece, after) => !piece.contains '\n' && sharpAhead after
      | none => isBlank c && sharpAhead rest
termination_by cs.length
decreasing_by
  · exact length_gapPiece_lt _h
  · simp

theorem sharpAhead_sharp (rest : List Char) : sharpAhead ('#' :: rest) = true := by
  rw [sharpAhead, if_pos rfl]

theorem sharpAhead_piece (h : GapPiece false piece rest) :
    sharpAhead (piece ++ rest) = (!piece.contains '\n' && sharpAhead rest) := by
  have hpiece := gapPiece_eq_some_iff.2 ⟨rfl, h⟩
  obtain ⟨c, cs, rfl⟩ := List.exists_cons_of_ne_nil (gapPiece_ne_nil hpiece)
  have hsharp : c ≠ '#' := by
    rintro rfl
    cases h with
    | blank h => cases h
    | directive hline => cases hline
  rw [List.cons_append] at hpiece ⊢
  rw [sharpAhead, if_neg hsharp]
  split
  · rename_i hsome
    obtain ⟨rfl, rfl⟩ := Prod.mk.inj (Option.some.inj (hpiece.symm.trans hsome))
    rfl
  · rename_i hnone
    rw [hpiece] at hnone
    cases hnone

/-- A blank that is a token lets the line go on as it did. -/
theorem sharpAhead_blank {c : Char} (hc : isBlank c = true)
    (h : gapPiece? false (c :: rest) = none) : sharpAhead (c :: rest) = sharpAhead rest := by
  have hsharp : c ≠ '#' := by
    rintro rfl
    cases hc
  rw [sharpAhead, if_neg hsharp]
  split
  · rename_i hsome
    rw [h] at hsome
    cases hsome
  · rw [hc, Bool.true_and]

theorem splitLexeme_blank {c : Char} (hc : isBlank c = true) (rest : List Char) :
    splitLexeme c rest = (.punctuation, [c], rest) := by
  have hword : isWordStart c = false := by
    rw [Bool.eq_false_iff]
    intro h
    rw [Text.isBlank_eq_false_of_isWordChar (Text.isWordChar_of_isWordStart h)] at hc
    cases hc
  have hdigit : isAsciiDigit c = false := by
    rw [Bool.eq_false_iff]
    intro h
    rw [Text.isBlank_eq_false_of_isAlphanumeric (Text.isAlphanumeric_of_isAsciiDigit h)] at hc
    cases hc
  have hmarks : c ≠ '.' ∧ c ≠ doubleQuote ∧ c ≠ singleQuote ∧ c ≠ ':' := by
    refine ⟨?_, ?_, ?_, ?_⟩ <;> (rintro rfl; cases hc)
  simp [splitLexeme, hword, hdigit, hmarks]

/-- A piece of a gap may be blanked: with blanks in its place no number sign starts its line that
does not start it behind the piece. -/
def isMute (before : Bool) (piece rest : List Char) : Bool :=
  !sharpAhead rest || atLineStart before (blank piece) == atLineStart before piece

/-- Behind a lexeme the line has started, whether or not it had before, unless the lexeme is a
blank. -/
theorem atLineStart_lexeme {c : Char} {kind : Kind}
    (h : splitLexeme c (taken ++ after) = (kind, c :: taken, after)) :
    isBlank c = true ∧ taken = [] ∨
      ∀ before before', atLineStart before (c :: taken) = atLineStart before' (c :: taken) := by
  by_cases hc : isBlank c = true
  · rw [splitLexeme_blank hc] at h
    exact .inl ⟨hc, (List.cons.inj (Prod.mk.inj (Prod.mk.inj h).2).1).2.symm⟩
  · have hline : c ≠ '\n' := by
      rintro rfl
      exact hc rfl
    exact .inr fun before before' => by simp [hline, hc]

/-! ## Drift -/

/-- A text is read twice, the second time at the start of a line if the first time. If not both
times, no number sign follows that would tell. -/
structure Drift (before before' : Bool) (cs : List Char) : Prop where
  le : before = true → before' = true
  eq : before = before' ∨ sharpAhead cs = false

namespace Drift

theorem refl (before : Bool) (cs : List Char) : Drift before before cs :=
  ⟨id, .inl rfl⟩

/-- Behind a piece of a gap it is open whether the line has started only if no number sign follows,
also where another text with its line ends stands in the place of the piece. -/
theorem eq_behind (hd : Drift before before' (piece ++ rest)) (h : GapPiece before piece rest)
    {cs : List Char} (hline : '\n' ∈ piece → '\n' ∈ cs) :
    atLineStart before cs = atLineStart before' cs ∨ sharpAhead rest = false := by
  rcases hd.eq with rfl | hsharp
  · exact .inl rfl
  cases before with
  | true => exact .inl (by rw [hd.le rfl])
  | false =>
    rw [sharpAhead_piece h] at hsharp
    by_cases hpiece : '\n' ∈ piece
    · exact .inl (atLineStart_of_newline (hline hpiece))
    · exact .inr (by simpa [hpiece] using hsharp)

/-- Behind a piece of a gap that is left. -/
theorem left (hd : Drift before before' (piece ++ rest)) (h : GapPiece before piece rest) :
    Drift (atLineStart before piece) (atLineStart before' piece) rest :=
  ⟨atLineStart_mono hd.le, hd.eq_behind h id⟩

/-- Behind a piece of a gap that is blanked. -/
theorem blanked (hd : Drift before before' (piece ++ rest)) (h : GapPiece before piece rest)
    (hmute : isMute before piece rest = true) :
    Drift (atLineStart before piece) (atLineStart before' (blank piece)) rest := by
  refine ⟨atLineStart_blank_mono hd.le, ?_⟩
  rw [isMute, Bool.or_eq_true, Bool.not_eq_true', beq_iff_eq] at hmute
  rcases hmute with hsharp | hsame
  · exact .inr hsharp
  · rw [← hsame]
    exact hd.eq_behind h newline_mem_blank

theorem gapPiece_eq_none (hd : Drift before before' cs) (h : gapPiece? before cs = none) :
    gapPiece? before' cs = none := by
  cases cs with
  | nil => rfl
  | cons c cs =>
    rw [gapPiece_eq_none_iff] at h ⊢
    refine ⟨h.1, h.2.1, fun hc => ?_⟩
    rcases hd.eq with rfl | hsharp
    · exact h.2.2 hc
    · rw [hc, sharpAhead_sharp] at hsharp
      cases hsharp

/-- Behind a lexeme. Only a blank that is a token leaves open whether the line has started. -/
theorem lexeme {c : Char} {kind : Kind} (hd : Drift before before' (c :: (taken ++ after)))
    (hnone : gapPiece? before (c :: (taken ++ after)) = none)
    (h : splitLexeme c (taken ++ after) = (kind, c :: taken, after)) :
    Drift (atLineStart before (c :: taken)) (atLineStart before' (c :: taken)) after := by
  refine ⟨atLineStart_mono hd.le, ?_⟩
  rcases hd.eq with rfl | hsharp
  · exact .inl rfl
  rcases atLineStart_lexeme h with ⟨hc, rfl⟩ | hsame
  · have hnone' : gapPiece? false (c :: after) = none := by
      rw [List.nil_append, gapPiece_eq_none_iff] at hnone
      rw [gapPiece_eq_none_iff]
      exact ⟨hnone.1, hnone.2.1, fun _ => rfl⟩
    exact .inr ((sharpAhead_blank hc hnone').symm.trans hsharp)
  · exact .inl (hsame before before')

end Drift

/-! ## Blanked texts -/

/-- The gap at the start of a text with blanks in the place of chosen pieces. A piece stays if it
keeps a number sign from the start of a line. -/
def blankGap (chosen : Cursor → Bool) (k : Cursor) (cs : List Char) : List Char :=
  match _h : gapPiece? k.lineStart cs with
  | none => []
  | some (piece, rest) =>
    (if chosen k && isMute k.lineStart piece rest then blank piece else piece)
      ++ blankGap chosen (k.past piece) rest
termination_by cs.length
decreasing_by exact length_gapPiece_lt _h

/-- A text with blanks in the place of chosen pieces of its gaps, but for those before the tokens
that keep their gaps. -/
def blankFrom (keep : Token → Bool) (chosen : Cursor → Bool) (k : Cursor) (cs : List Char) :
    List Char :=
  let g := splitGap k.lineStart cs
  match _h : g.2 with
  | [] => blankGap chosen k cs
  | c :: rest =>
    let start := k.past g.1
    let l := splitLexeme c rest
    let t : Token :=
      { kind := l.1, text := String.ofList l.2.1, gap := String.ofList g.1
        offset := start.offset, position := start.position }
    blankGap (fun k => chosen k && !keep t) k cs ++ l.2.1
      ++ blankFrom keep chosen (start.past l.2.1) l.2.2
termination_by cs.length
decreasing_by
  have hg := congrArg List.length (append_splitGap k.lineStart cs)
  have hl := length_splitLexeme_le c rest
  simp only [g, _h, List.length_append, List.length_cons] at *
  omega

section Gaps

variable {k : Cursor}

theorem blankGap_of_none (chosen : Cursor → Bool) (h : gapPiece? k.lineStart cs = none) :
    blankGap chosen k cs = [] := by
  rw [blankGap]
  split
  · rfl
  · simp_all

theorem blankGap_of_some (chosen : Cursor → Bool)
    (h : gapPiece? k.lineStart cs = some (piece, rest)) :
    blankGap chosen k cs =
      (if chosen k && isMute k.lineStart piece rest then blank piece else piece)
        ++ blankGap chosen (k.past piece) rest := by
  rw [blankGap]
  split
  · simp_all
  · rename_i h'
    obtain ⟨rfl, rfl⟩ := Prod.mk.inj (Option.some.inj (h.symm.trans h'))
    rfl

/-- A gap of which nothing is chosen stays. -/
theorem blankGap_of_not_chosen (k : Cursor) (cs : List Char) :
    blankGap (fun _ => false) k cs = (splitGap k.lineStart cs).1 := by
  fun_induction blankGap (fun _ => false) k cs with
  | case1 k cs h => rw [splitGap_of_none h]
  | case2 k cs piece rest h ih =>
    rw [splitGap_of_some h, ih]
    rfl

theorem past_blankGap (p : Position) (chosen : Cursor → Bool) (k : Cursor) (cs : List Char) :
    p.past (blankGap chosen k cs) = p.past (splitGap k.lineStart cs).1 := by
  fun_induction blankGap chosen k cs generalizing p with
  | case1 k cs h => rw [splitGap_of_none h]
  | case2 k cs piece rest h ih =>
    rw [splitGap_of_some h, Position.past_append, Position.past_append, ih]
    split
    · rw [past_blank]
      rfl
    · rfl

/-- Behind a blanked gap the text is read as behind the gap itself. -/
theorem drift_blankGap (chosen : Cursor → Bool) (hd : Drift k.lineStart before' cs)
    (h : splitGap k.lineStart cs = (gap, rest)) :
    Drift (atLineStart k.lineStart gap) (atLineStart before' (blankGap chosen k cs)) rest := by
  fun_induction blankGap chosen k cs generalizing before' gap with
  | case1 k cs hnone =>
    rw [splitGap_of_none hnone] at h
    obtain ⟨rfl, rfl⟩ := Prod.mk.inj h
    exact hd
  | case2 k cs piece tail hsome ih =>
    rw [splitGap_of_some hsome] at h
    obtain ⟨rfl, htail⟩ := Prod.mk.inj h
    obtain ⟨rfl, hpiece⟩ := gapPiece_eq_some_iff.1 hsome
    rw [atLineStart_append, atLineStart_append]
    refine ih ?_ (Prod.ext rfl htail)
    split
    · rename_i hblank
      exact hd.blanked hpiece (Bool.and_eq_true_iff.1 hblank).2
    · exact hd.left hpiece

/-- A blanked gap may stand before what stood before the gap. -/
theorem mayFollow_blankGap (chosen : Cursor → Bool) (h : splitGap k.lineStart cs = (gap, after))
    (hf : MayFollow after after') : MayFollow cs (blankGap chosen k cs ++ after') := by
  cases hpiece : gapPiece? k.lineStart cs with
  | none =>
    rw [splitGap_of_none hpiece] at h
    obtain ⟨rfl, rfl⟩ := Prod.mk.inj h
    rw [blankGap_of_none _ hpiece]
    exact hf
  | some p =>
    obtain ⟨piece, rest⟩ := p
    obtain ⟨c, piece, rfl⟩ := List.exists_cons_of_ne_nil (gapPiece_ne_nil hpiece)
    obtain ⟨rfl, -⟩ := gapPiece_eq_some_iff.1 hpiece
    rw [blankGap_of_some _ hpiece]
    split
    · by_cases hline : c = '\n'
      · rintro d hd
        refine .inl ?_
        simpa [blank, hline] using hd
      · rintro d hd
        refine .inr ⟨?_, c, rfl, hline⟩
        obtain rfl : ' ' = d := by simpa [blank, hline] using hd
        rfl
    · exact fun d hd => .inl hd

/-- A blanked gap is a gap. -/
theorem splitGap_blankGap (chosen : Cursor → Bool) (hd : Drift k.lineStart before' cs)
    (h : splitGap k.lineStart cs = (gap, after)) (hf : MayFollow after after')
    (hnone : gapPiece? (atLineStart before' (blankGap chosen k cs)) after' = none) :
    splitGap before' (blankGap chosen k cs ++ after') = (blankGap chosen k cs, after') := by
  fun_induction blankGap chosen k cs generalizing before' gap with
  | case1 k cs _ => exact splitGap_of_none hnone
  | case2 k cs piece tail hsome ih =>
    rw [splitGap_of_some hsome] at h
    obtain ⟨rfl, htail⟩ := Prod.mk.inj h
    have htail : splitGap (k.past piece).lineStart tail =
        ((splitGap (k.past piece).lineStart tail).1, after) := Prod.ext rfl htail
    obtain ⟨rfl, hpiece⟩ := gapPiece_eq_some_iff.1 hsome
    rw [atLineStart_append] at hnone
    split at hnone
    · rename_i hblank
      rw [if_pos hblank]
      rw [List.append_assoc, splitGap_blanks fun _ => isAsciiBlank_of_mem_blank,
        ih (hd.blanked hpiece (Bool.and_eq_true_iff.1 hblank).2) htail hnone]
    · rename_i hleft
      have hfollow : MayFollow tail (blankGap chosen (k.past piece) tail ++ after') :=
        mayFollow_blankGap _ htail hf
      have hpiece' := gapPiece_eq_some_iff.2 ⟨rfl, (hpiece.mono hd.le).follow hfollow⟩
      rw [if_neg hleft, List.append_assoc, splitGap_of_some hpiece',
        ih (hd.left hpiece) htail hnone]

end Gaps

/-! ## Tokens of blanked texts -/

/-- Two tokens differ in no more than their places and the gaps before them, and not in the gap
either where it is kept. -/
structure Alike (keep : Token → Bool) (t t' : Token) : Prop where
  kind : t'.kind = t.kind
  text : t'.text = t.text
  gap : keep t = true → t'.gap = t.gap

/-- Two tokens are alike and stand at the same place. -/
structure AlikeInPlace (keep : Token → Bool) (t t' : Token) : Prop extends Alike keep t t' where
  position : t'.position = t.position

variable (keep : Token → Bool) (chosen : Cursor → Bool)

theorem blankFrom_of_nil {k : Cursor} (h : splitGap k.lineStart cs = (gap, [])) :
    blankFrom keep chosen k cs = blankGap chosen k cs := by
  rw [blankFrom]
  dsimp only
  split
  · rfl
  · rename_i heq
    rw [h] at heq
    cases heq

theorem blankFrom_of_cons {k : Cursor} {c : Char} {t : Token} {ts : List Token}
    (h : splitGap k.lineStart cs = (gap, c :: rest)) (ht : lexFrom k cs = t :: ts) :
    blankFrom keep chosen k cs =
      blankGap (fun k => chosen k && !keep t) k cs ++ ((splitLexeme c rest).2.1 ++
        blankFrom keep chosen ((k.past gap).past (splitLexeme c rest).2.1)
          (splitLexeme c rest).2.2) := by
  rw [lexFrom_eq_cons h] at ht
  rw [← (List.cons.inj ht).1, blankFrom]
  dsimp only
  split
  · rename_i heq
    rw [h] at heq
    cases heq
  · rename_i heq
    rw [h] at heq
    obtain ⟨rfl, rfl⟩ := List.cons.inj heq
    rw [h, List.append_assoc]

theorem mayFollow_blankFrom (k : Cursor) (cs : List Char) :
    MayFollow cs (blankFrom keep chosen k cs) := by
  rcases h : splitGap k.lineStart cs with ⟨gap, _ | ⟨c, rest⟩⟩
  · rw [blankFrom_of_nil _ _ h, ← List.append_nil (blankGap chosen k cs)]
    exact mayFollow_blankGap _ h (.refl [])
  · rw [blankFrom_of_cons _ _ h (lexFrom_eq_cons h)]
    obtain ⟨kind, taken, after, hlex, rfl⟩ := exists_splitLexeme c rest
    rw [hlex]
    exact mayFollow_blankGap _ h fun d hd => .inl hd

/-- Behind a blanked gap stands the token that stood behind the gap, and the line goes on as it did
behind it. -/
theorem lexFrom_blankGap {k k' : Cursor} {c : Char} {kind : Kind}
    (hd : Drift k.lineStart k'.lineStart cs)
    (h : splitGap k.lineStart cs = (gap, c :: (taken ++ after)))
    (hlex : splitLexeme c (taken ++ after) = (kind, c :: taken, after))
    (hf : MayFollow after after') :
    lexFrom k' (blankGap chosen k cs ++ (c :: taken ++ after')) =
      { kind, text := String.ofList (c :: taken), gap := String.ofList (blankGap chosen k cs)
        offset := (k'.past (blankGap chosen k cs)).offset
        position := (k'.past (blankGap chosen k cs)).position } ::
      lexFrom ((k'.past (blankGap chosen k cs)).past (c :: taken)) after' ∧
    Drift ((k.past gap).past (c :: taken)).lineStart
      ((k'.past (blankGap chosen k cs)).past (c :: taken)).lineStart after := by
  have hbehind : Drift (atLineStart k.lineStart gap)
      (atLineStart k'.lineStart (blankGap chosen k cs)) (c :: (taken ++ after)) :=
    drift_blankGap chosen hd h
  have hnone := gapPiece_behind_splitGap h
  have hgap : splitGap k'.lineStart (blankGap chosen k cs ++ (c :: taken ++ after')) =
      (blankGap chosen k cs, c :: (taken ++ after')) :=
    splitGap_blankGap chosen hd h (fun d hd => .inl hd)
      (gapPiece_none_follow (hbehind.gapPiece_eq_none hnone) (hf.append taken))
  have hlex' := splitLexeme_follow hlex hf
  refine ⟨?_, hbehind.lexeme hnone hlex⟩
  rw [lexFrom_eq_cons hgap, hlex']

/-- A text with blanks in the place of chosen pieces of its gaps has the same tokens at the same
places. -/
theorem alike_lexFrom_blankFrom {k k' : Cursor} (hp : k'.position = k.position)
    (hd : Drift k.lineStart k'.lineStart cs) :
    List.Forall₂ (AlikeInPlace keep) (lexFrom k cs) (lexFrom k' (blankFrom keep chosen k cs)) := by
  induction hn : cs.length using Nat.strong_induction_on generalizing k k' cs with
  | _ n ih =>
    rcases h : splitGap k.lineStart cs with ⟨gap, _ | ⟨c, rest⟩⟩
    · have hgap : splitGap k'.lineStart (blankGap chosen k cs ++ []) = (blankGap chosen k cs, []) :=
        splitGap_blankGap chosen hd h (.refl []) rfl
      rw [List.append_nil] at hgap
      rw [lexFrom_eq_nil (by rw [h]), blankFrom_of_nil keep chosen h, lexFrom_eq_nil (by rw [hgap])]
      exact .nil
    · obtain ⟨kind, taken, after, hlex, rfl⟩ := exists_splitLexeme c rest
      have hcons := lexFrom_eq_cons h
      rw [hlex] at hcons
      have hblank := blankFrom_of_cons keep chosen h hcons
      rw [hlex] at hblank
      generalize ht : Token.mk kind _ _ _ _ = t at hcons hblank
      have hfollow := mayFollow_blankFrom keep chosen ((k.past gap).past (c :: taken)) after
      obtain ⟨hcons', hd'⟩ := lexFrom_blankGap (fun k => chosen k && !keep t) hd h hlex hfollow
      have hplace : (k'.past (blankGap (fun k => chosen k && !keep t) k cs)).position =
          (k.past gap).position := by
        have hpast := past_blankGap k.position (fun k => chosen k && !keep t) k cs
        rw [h] at hpast
        exact (congrArg (Position.past · _) hp).trans hpast
      have hkept : keep t = true → blankGap (fun k => chosen k && !keep t) k cs = gap := by
        intro hkeep
        have hleft := blankGap_of_not_chosen k cs
        rw [h] at hleft
        simpa [hkeep] using hleft
      have hrest : after.length < n := by
        have happ := congrArg List.length (append_splitGap k.lineStart cs)
        rw [h] at happ
        simp only [List.length_append, List.length_cons] at happ
        omega
      have hnext : ((k'.past (blankGap (fun k => chosen k && !keep t) k cs)).past
          (c :: taken)).position = ((k.past gap).past (c :: taken)).position :=
        congrArg (Position.past · (c :: taken)) hplace
      rw [hcons, hblank, hcons']
      subst ht
      exact .cons ⟨⟨rfl, rfl, fun hkeep => congrArg String.ofList (hkept hkeep)⟩, hplace⟩
        (ih _ hrest hnext hd' rfl)

end HeaderReflection.Token
