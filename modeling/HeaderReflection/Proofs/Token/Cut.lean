import HeaderReflection.Proofs.Text.CharClass
import HeaderReflection.Proofs.Token.Blank
import HeaderReflection.Proofs.Token.Partition

/-!
# Tokens of a stretch that is cut out

A stretch of a text that starts and ends between tokens is cut into the same tokens on its own. The
start of the stretch is the start of a line then, so no number sign may stand there. If the stretch
is trimmed, the white space at its end is lost, also where it is part of a token.

* `pieces_stretch`, `pieces_cut`: the pieces of a stretch that is cut out, alone or with the gap
  behind it.
* `splitLexeme_prefix`: whatever starts a lexeme is a lexeme.
* `texts_trimmed`: the tokens of a stretch that is trimmed at its end.
-/

namespace HeaderReflection.Token

open Text (isAsciiBlank isBlank trimEnd trimEnd_append_eq_ite)

variable {cs rest taken gap left right : List Char} {before before' : Bool}

theorem getLast?_splitBlockComment (h : splitBlockComment cs = (taken, rest)) (hrest : rest ≠ []) :
    '/' ∈ taken.getLast? := by
  fun_induction splitBlockComment cs generalizing taken with
  | case1 =>
    obtain ⟨-, rfl⟩ := Prod.mk.inj h
    exact absurd rfl hrest
  | case2 tail =>
    obtain ⟨rfl, -⟩ := Prod.mk.inj h
    rfl
  | case3 c tail hclose r =>
    rename_i ih
    obtain ⟨rfl, hr⟩ := Prod.mk.inj h
    have hlast : '/' ∈ r.1.getLast? := ih (Prod.ext rfl hr)
    obtain ⟨init, hinit⟩ := List.getLast?_eq_some_iff.1 hlast
    rw [hinit, ← List.cons_append, List.getLast?_append_of_ne_nil _ (by simp)]
    rfl

theorem exists_cons_of_append {c : Char} (h : c :: taken = left ++ right) (hc : isBlank c = false)
    (hright : ∀ d ∈ right, isBlank d = true) :
    ∃ more, left = c :: more ∧ taken = more ++ right := by
  cases left with
  | nil =>
    rw [hright c (by rw [← List.nil_append right, ← h]; exact List.mem_cons_self)] at hc
    cases hc
  | cons d more =>
    obtain ⟨rfl, htaken⟩ := List.cons.inj h
    exact ⟨more, rfl, htaken⟩

/-- A piece of a gap without the blanks at its end is nothing or a piece. -/
theorem GapPiece.trimmed {piece : List Char} (h : GapPiece before piece rest) (hrest : rest ≠ [])
    (hpiece : piece = left ++ right) (hright : ∀ c ∈ right, isBlank c = true) :
    left = [] ∨ GapPiece before left [] := by
  cases h with
  | blank h =>
    rcases left with _ | ⟨c, left⟩
    · exact .inl rfl
    · obtain ⟨rfl, hnil⟩ := List.cons.inj hpiece
      rw [(List.append_eq_nil_iff.1 hnil.symm).1]
      exact .inr (.blank h)
  | lineComment h =>
    obtain ⟨more, rfl, hmore⟩ := exists_cons_of_append hpiece rfl hright
    obtain ⟨more, rfl, rfl⟩ := exists_cons_of_append hmore rfl hright
    have hline : ∀ c ∈ more, decide (c ≠ '\n') = true := by
      intro c hc
      refine List.mem_takeWhile_imp (l := more ++ right ++ rest)
        (p := fun c => decide (c ≠ '\n')) ?_
      rw [(Prod.mk.inj h).1]
      exact List.mem_append_left _ hc
    refine .inr (.lineComment ?_)
    unfold splitLineComment
    rw [Text.takeWhile_run hline (by simp), Text.dropWhile_run hline (by simp)]
  | blockComment h =>
    -- The mark that closes the comment is no blank, so nothing is trimmed.
    have hlast := getLast?_splitBlockComment h hrest
    have hnil : right = [] := by
      obtain ⟨more, rfl, hmore⟩ := exists_cons_of_append hpiece rfl hright
      obtain ⟨more, rfl, rfl⟩ := exists_cons_of_append hmore rfl hright
      by_contra hne
      rw [List.getLast?_append_of_ne_nil _ hne] at hlast
      have hblank := hright _ (List.mem_of_getLast? hlast)
      cases hblank
    rw [hnil, List.append_nil] at hpiece
    rw [← hpiece]
    exact .inr (GapPiece.follow (.blockComment h) (.of_isPrefix List.nil_prefix))
  | directive hline h =>
    obtain ⟨more, rfl, rfl⟩ := exists_cons_of_append hpiece rfl hright
    have hprefix : more <+: (splitDirective (more ++ right ++ rest)).1 := by
      rw [h]
      exact List.prefix_append _ _
    refine .inr (.directive hline ?_)
    rw [List.append_nil]
    exact splitDirective_prefix hprefix

/-- A gap without the blanks at its end holds no token. -/
theorem splitGap_trimmed (h : splitGap before cs = (gap, rest)) (hrest : rest ≠ [])
    (hgap : gap = left ++ right) (hright : ∀ c ∈ right, isBlank c = true)
    (hle : before = true → before' = true) : (splitGap before' left).2 = [] := by
  fun_induction splitGap before cs generalizing gap left before' with
  | case1 before cs _ =>
    obtain ⟨rfl, -⟩ := Prod.mk.inj h
    rw [(List.append_eq_nil_iff.1 hgap.symm).1, splitGap_of_none rfl]
  | case2 before cs piece tail hsome more rest' hmore ih =>
    obtain ⟨rfl, rfl⟩ := Prod.mk.inj h
    obtain ⟨rfl, hpiece⟩ := gapPiece_eq_some_iff.1 hsome
    have htail : more <+: tail := by
      have happ := append_splitGap (atLineStart before piece) tail
      rw [hmore] at happ
      exact ⟨rest', happ⟩
    have hne : tail ≠ [] := by
      rintro rfl
      have happ := append_splitGap (atLineStart before piece) []
      rw [hmore] at happ
      exact hrest (List.append_eq_nil_iff.1 happ).2
    rcases List.append_eq_append_iff.1 hgap with ⟨left', rfl, rfl⟩ | ⟨right', rfl, rfl⟩
    · have hstep := gapPiece_eq_some_iff.2
        ⟨rfl, (hpiece.mono hle).follow
          (.of_isPrefix ((List.prefix_append left' right).trans htail))⟩
      rw [splitGap_of_some hstep]
      exact ih hmore rfl (atLineStart_mono hle)
    · have hblank : ∀ c ∈ right', isBlank c = true := fun c hc =>
        hright c (List.mem_append_left _ hc)
      rcases hpiece.trimmed hne rfl hblank with rfl | hleft
      · rw [splitGap_of_none rfl]
      · have hstep := gapPiece_eq_some_iff.2 ⟨rfl, hleft.mono hle⟩
        rw [List.append_nil] at hstep
        rw [splitGap_of_some hstep, splitGap_of_none rfl]

/-- The first of the texts that is more than blanks is a number sign. -/
def sharpFirst (texts : List String) : Bool :=
  (texts.dropWhile (·.toList.all isBlank)).head? = some "#"

theorem sharpFirst_sharp (texts : List String) : sharpFirst ("#" :: texts) = true := by
  simp [sharpFirst, show isBlank '#' = false from rfl]

theorem sharpFirst_blank {s : String} (h : s.toList.all isBlank = true) (texts : List String) :
    sharpFirst (s :: texts) = sharpFirst texts := by
  simp only [sharpFirst, List.dropWhile_cons, h, if_true]

section Stretches

variable {texts : List String} {c : Char} {kind : Kind}

/-- A number sign that is a lexeme stands behind the same in both readings of its line. -/
theorem eq_of_sharpFirst (hlex : splitLexeme '#' (taken ++ rest) = (kind, '#' :: taken, rest))
    (h : before = before' ∨ sharpFirst (String.ofList ('#' :: taken) :: texts) = false) :
    before = before' := by
  obtain rfl : [] = taken := (List.cons.inj (Prod.mk.inj (Prod.mk.inj hlex).2).1).2
  exact h.resolve_right (by rw [Bool.not_eq_false]; exact sharpFirst_sharp texts)

/-- Behind a lexeme it is open whether the line has started only if no number sign follows. -/
theorem eq_behind_lexeme (hlex : splitLexeme c (taken ++ rest) = (kind, c :: taken, rest))
    (h : before = before' ∨ sharpFirst (String.ofList (c :: taken) :: texts) = false) :
    atLineStart before (c :: taken) = atLineStart before' (c :: taken) ∨
      sharpFirst texts = false := by
  rcases h with rfl | hfirst
  · exact .inl rfl
  rcases atLineStart_lexeme hlex with ⟨hc, rfl⟩ | hsame
  · rw [sharpFirst_blank (by simp [hc])] at hfirst
    exact .inr hfirst
  · exact .inl (hsame before before')

end Stretches

/-- A gap ends before its lexeme in both readings of its line, also where other text stands behind
the first character of that. -/
theorem splitGap_cut {texts : List String} {c : Char} {kind : Kind}
    (h : splitGap before cs = (gap, c :: (taken ++ rest)))
    (hlex : splitLexeme c (taken ++ rest) = (kind, c :: taken, rest))
    (hle : before = true → before' = true)
    (hsharp : before = before' ∨ sharpFirst (String.ofList (c :: taken) :: texts) = false)
    {behind : List Char} (hf : MayFollow (taken ++ rest) behind) :
    splitGap before' (gap ++ c :: behind) = (gap, c :: behind) := by
  refine splitGap_follow h hle (fun d hd => .inl hd) ?_
  -- A number sign behind the gap would be a directive if the line started there.
  have hsame := gapPiece_none_follow (gapPiece_behind_splitGap h) hf
  rw [gapPiece_eq_none_iff] at hsame ⊢
  refine ⟨hsame.1, hsame.2.1, fun hc => ?_⟩
  subst hc
  exact eq_of_sharpFirst hlex (hsharp.imp_left (congrArg (atLineStart · gap))) ▸ hsame.2.2 rfl

section Pieces

variable {k : Cursor} {t u : Token} {ts us : List Token}

/-- The first token with its gap, its lexeme and what stands behind that. -/
theorem exists_lexeme_of_lexFrom (h : lexFrom k cs = t :: ts) :
    ∃ gap c taken after, splitGap k.lineStart cs = (gap, c :: (taken ++ after)) ∧
      splitLexeme c (taken ++ after) = (t.kind, c :: taken, after) ∧
      t.gap = String.ofList gap ∧ t.text = String.ofList (c :: taken) ∧
      cs = gap ++ (c :: (taken ++ after)) ∧
      lexFrom ((k.past gap).past (c :: taken)) after = ts := by
  obtain ⟨gap, c, rest, hg, hgap, hkind, htext, hts⟩ := lexFrom_eq_cons_iff h
  obtain ⟨kind, taken, after, hlex, rfl⟩ := exists_splitLexeme c rest
  have happ := append_splitGap k.lineStart cs
  rw [hg] at happ
  rw [hlex] at hkind htext hts
  exact ⟨gap, c, taken, after, hg, by rw [hlex, hkind], hgap, htext, happ.symm, hts.symm⟩

/-- The pieces of a stretch that is cut out, with a text behind it that is one gap. -/
theorem pieces_stretch (h : lexFrom k cs = ts ++ us) (hstands : (spell ts).toList ++ left <+: cs)
    (hleft : ∀ start, (atLineStart k.lineStart (spell ts).toList = true → start = true) →
      (splitGap start left).2 = [])
    (hle : k.lineStart = true → before' = true)
    (hsharp : k.lineStart = before' ∨ sharpFirst (ts.map Token.text) = false) :
    pieces before' ((spell ts).toList ++ left) = ts.map piece := by
  induction ts generalizing k cs before' with
  | nil => exact pieces_of_splitGap_eq_nil (hleft before' hle)
  | cons t ts ih =>
    obtain ⟨gap, c, taken, after, hg, hlex, hgap, htext, rfl, htail⟩ := exists_lexeme_of_lexFrom h
    have hspell : (spell (t :: ts)).toList = gap ++ (c :: taken) ++ (spell ts).toList := by
      rw [toList_spell_cons, hgap, htext, String.toList_ofList, String.toList_ofList]
    rw [List.map_cons, htext] at hsharp
    rw [hspell, List.append_assoc, List.append_assoc, List.prefix_append_right_inj,
      List.cons_append, List.cons_prefix_cons, List.prefix_append_right_inj] at hstands
    simp only [hspell, atLineStart_append] at hleft
    have hfollow := MayFollow.of_isPrefix hstands.2
    have htail' := ih htail hstands.2 hleft (atLineStart_mono (atLineStart_mono hle))
      (eq_behind_lexeme hlex (hsharp.imp_left (congrArg (atLineStart · gap))))
    rw [hspell, List.append_assoc, List.append_assoc, List.cons_append,
      pieces_of_splitGap (splitGap_cut hg hlex hle hsharp (hfollow.append taken)),
      splitLexeme_follow hlex hfollow, htail', List.map_cons, piece, hgap, htext]

theorem text_ne_empty (h : lexFrom k cs = ts) (ht : t ∈ ts) : t.text ≠ "" := by
  obtain ⟨before, after, rfl⟩ := List.append_of_mem ht
  obtain ⟨rest, -, hts⟩ := exists_lexFrom_behind h
  obtain ⟨gap, c, taken, after, -, -, -, htext, -⟩ := exists_lexeme_of_lexFrom hts.symm
  rw [htext]
  exact fun hempty => by simpa using congrArg String.toList hempty

/-- Tokens with the gap behind them stand at the start of their text. -/
theorem prefix_of_lexFrom (h : lexFrom k cs = ts ++ u :: us) :
    (spell ts).toList ++ u.gap.toList <+: cs := by
  obtain ⟨rest, rfl, hus⟩ := exists_lexFrom_behind h
  obtain ⟨gap, c, taken, after, -, -, hgap, -, rfl, -⟩ := exists_lexeme_of_lexFrom hus.symm
  rw [hgap, String.toList_ofList, List.prefix_append_right_inj]
  exact List.prefix_append _ _

/-- The gap in front of a token that stands behind others, without the blanks at its end. -/
theorem splitGap_behind (h : lexFrom k cs = ts ++ u :: us) (hgap : u.gap.toList = left ++ right)
    (hright : ∀ c ∈ right, isBlank c = true) {start : Bool}
    (hstart : atLineStart k.lineStart (spell ts).toList = true → start = true) :
    (splitGap start left).2 = [] := by
  obtain ⟨rest, rfl, hus⟩ := exists_lexFrom_behind h
  obtain ⟨gap, c, taken, after, hg, -, hgap', -⟩ := exists_lexeme_of_lexFrom hus.symm
  rw [hgap', String.toList_ofList] at hgap
  exact splitGap_trimmed hg (by simp) hgap hright hstart

/-- The pieces of a stretch that is cut out with the gap behind it. -/
theorem pieces_cut (h : lexFrom k cs = ts ++ u :: us) (hle : k.lineStart = true → before' = true)
    (hsharp : k.lineStart = before' ∨ sharpFirst (ts.map Token.text) = false) :
    pieces before' ((spell ts).toList ++ u.gap.toList) = ts.map piece :=
  pieces_stretch h (prefix_of_lexFrom h)
    (fun _ => splitGap_behind h (List.append_nil _).symm (by simp)) hle hsharp

/-! ## Trimmed stretches -/

/-- Whatever starts a lexeme is a lexeme. -/
theorem splitLexeme_prefix {c : Char} {kind : Kind} {after : List Char}
    (h : splitLexeme c (taken ++ after) = (kind, c :: taken, after)) (hleft : left <+: taken) :
    (splitLexeme c left).2 = (c :: left, []) := by
  obtain ⟨kind', taken', tail, hlex, rfl⟩ := exists_splitLexeme c left
  cases tail with
  | nil => rw [hlex, List.append_nil]
  | cons d tail =>
    -- A lexeme that ends in front of the cut would end there in the whole text.
    obtain ⟨more, rfl⟩ := hleft
    have hfollow : MayFollow (d :: tail) (d :: tail ++ (more ++ after)) := fun e he => .inl he
    have hwhole := splitLexeme_follow hlex hfollow
    rw [← List.append_assoc, ← List.append_assoc, h] at hwhole
    have hlength := congrArg (fun l => l.2.1.length) hwhole
    simp at hlength

/-- The texts of tokens with a gap behind them, without the white space at the end of it all. -/
def trimmedTexts (gap : String) : List Token → List String
  | [] => []
  | t :: ts =>
    if (spell ts ++ gap).toList.all isBlank then
      if t.text.toList.all isBlank then [] else [String.ofList (trimEnd t.text.toList)]
    else t.text :: trimmedTexts gap ts

/-- A stretch ends as its last token does. -/
theorem getLast?_spell (hne : ∀ t ∈ ts, t.text ≠ "") :
    (spell ts).toList.getLast? = (ts.getLast?).bind (·.text.toList.getLast?) := by
  rcases List.eq_nil_or_concat ts with rfl | ⟨init, t, rfl⟩
  · rfl
  · have ht : t.text.toList ≠ [] := fun hnil =>
      hne t (by simp) (String.toList_inj.1 hnil)
    rw [List.concat_eq_append, spell_append, spell_singleton, String.toList_append,
      String.toList_append, ← List.append_assoc, List.getLast?_append_of_ne_nil _ ht,
      List.getLast?_concat]
    rfl

/-- Nothing is lost of tokens the last of which ends in no white space. -/
theorem trimmedTexts_eq (hne : ∀ t ∈ ts, t.text ≠ "")
    (hlast : ∀ t ∈ ts.getLast?, ∀ c ∈ t.text.toList.getLast?, isBlank c = false) (gap : String) :
    trimmedTexts gap ts = ts.map Token.text := by
  have hsolid : ∀ {cs : List Char}, cs ≠ [] → (∀ c ∈ cs.getLast?, isBlank c = false) →
      cs.all isBlank = false := fun {cs} hcs hend =>
    List.all_eq_false.2 ⟨cs.getLast hcs, List.getLast_mem hcs, by
      simp [hend _ (List.getLast?_eq_some_getLast hcs)]⟩
  induction ts with
  | nil => rfl
  | cons t ts ih =>
    obtain ⟨ht, hts⟩ := List.forall_mem_cons.1 hne
    rw [trimmedTexts, List.map_cons]
    cases ts with
    | nil =>
      have htext : t.text.toList ≠ [] := fun hnil => ht (String.toList_inj.1 hnil)
      rw [hsolid htext (hlast t rfl), Text.trimEnd_eq_self (hlast t rfl), String.ofList_toList]
      exact ite_self _
    | cons u us =>
      rw [List.getLast?_cons_cons] at hlast
      have hspell : (spell (u :: us)).toList ≠ [] := by
        rw [toList_spell_cons]
        intro hnil
        have hu := (List.append_eq_nil_iff.1 (List.append_eq_nil_iff.1 hnil).1).2
        exact hts u List.mem_cons_self (String.toList_inj.1 hu)
      have hend : ∀ c ∈ (spell (u :: us)).toList.getLast?, isBlank c = false := by
        rw [getLast?_spell hts]
        intro c hc
        obtain ⟨v, hv, hvc⟩ := Option.bind_eq_some_iff.1 hc
        exact hlast v hv c hvc
      rw [String.toList_append, List.all_append, hsolid hspell hend, Bool.false_and,
        if_neg Bool.false_ne_true, ih hts hlast]

/-- The tokens of a stretch that is cut out with the gap behind it and trimmed at its end. -/
theorem texts_trimmed (h : lexFrom k cs = ts ++ u :: us) (hle : k.lineStart = true → before' = true)
    (hsharp : k.lineStart = before' ∨ sharpFirst (ts.map Token.text) = false) :
    (pieces before' (trimEnd (spell ts ++ u.gap).toList)).map Piece.text =
      trimmedTexts u.gap ts := by
  induction ts generalizing k cs before' with
  | nil =>
    obtain ⟨right, hsplit, hright⟩ := Text.exists_trimEnd_append u.gap.toList
    rw [spell_nil, String.empty_append,
      pieces_of_splitGap_eq_nil (splitGap_behind h hsplit hright hle)]
    rfl
  | cons t ts ih =>
    obtain ⟨gap, c, taken, after, hg, hlex, hgap, htext, -, htail⟩ := exists_lexeme_of_lexFrom h
    have hspell : (spell (t :: ts) ++ u.gap).toList =
        gap ++ (c :: taken ++ (spell ts ++ u.gap).toList) := by
      simp [toList_spell_cons, hgap, htext]
    rw [List.map_cons, htext] at hsharp
    rw [hspell, trimmedTexts, htext, String.toList_ofList, trimEnd_append_eq_ite,
      trimEnd_append_eq_ite, List.all_append]
    by_cases hbehind : (spell ts ++ u.gap).toList.all isBlank = true
    · by_cases hblank : (c :: taken).all isBlank = true
      · -- Of the token nothing is left.
        obtain ⟨right, hsplit, hright⟩ := Text.exists_trimEnd_append gap
        have hnone := splitGap_trimmed hg (by simp) hsplit hright hle
        simp only [hbehind, hblank, Bool.and_true, if_true, pieces_of_splitGap_eq_nil hnone,
          List.map_nil]
      · -- The token is the last one, and the start of it is a token.
        obtain ⟨left, hleft, htrim⟩ := Text.exists_trimEnd_cons hblank
        have hf := MayFollow.of_isPrefix (hleft.trans (List.prefix_append taken after))
        simp only [hbehind, hblank, Bool.false_and, Bool.false_eq_true, if_true, if_false, htrim,
          pieces_of_splitGap (splitGap_cut hg hlex hle hsharp hf), splitLexeme_prefix hlex hleft,
          pieces_of_splitGap_eq_nil (congrArg Prod.snd (splitGap_of_none rfl)), List.map_cons,
          List.map_nil]
    · have hf := MayFollow.of_isPrefix
        ((Text.trimEnd_prefix _).trans (prefix_of_lexFrom htail))
      have htail' := ih htail (atLineStart_mono (atLineStart_mono hle))
        (eq_behind_lexeme hlex (hsharp.imp_left (congrArg (atLineStart · gap))))
      rw [Bool.not_eq_true] at hbehind
      simp only [hbehind, Bool.and_false, Bool.false_eq_true, if_false]
      rw [List.cons_append, String.toList_append,
        pieces_of_splitGap (splitGap_cut hg hlex hle hsharp (hf.append taken)),
        splitLexeme_follow hlex hf, List.map_cons, ← String.toList_append, htail']

end Pieces

end HeaderReflection.Token
