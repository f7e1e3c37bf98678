import HeaderReflection.Proofs.Token.Follow
import HeaderReflection.Proofs.Token.Spelling

/-!
# Complete lexemes

* `splitLexeme_complete`: a lexeme that a space ends is also ended by a comma, by a closing
  parenthesis and by the end of the text.
* `Reads.ofComplete`: a complete lexeme reads as one piece.
* `reads_words`: complete lexemes with spaces before them read as pieces.
* `Spells.beforeWords`: a text with complete lexemes behind it spells them too.
-/

namespace HeaderReflection

namespace Token

open Text (isBlank isAsciiBlank isAsciiDigit isWordChar isWordStart)

variable {cs rest : List Char}

/-- A lexeme that a space ends is also ended by a comma, by a closing parenthesis and by the end of
the text. -/
theorem splitLexeme_complete {c : Char} {kind : Kind}
    (h : splitLexeme c (cs ++ [' ']) = (kind, c :: cs, [' ']))
    (hrest : ∀ d ∈ rest.head?, endsLexeme d = true) :
    splitLexeme c (cs ++ rest) = (kind, c :: cs, rest) :=
  splitLexeme_follow h fun d hd => .inr ⟨hrest d hd, ' ', rfl, by decide⟩

/-- The text is one lexeme, if a space stands behind it, and has no blanks at its ends. -/
def isComplete (w : String) : Bool :=
  match w.toList with
  | [] => false
  | c :: cs =>
    (splitLexeme c (cs ++ [' '])).2 == (c :: cs, [' ']) && !isBlank c &&
      (c :: cs).getLast?.all (!isBlank ·)

theorem exists_of_isComplete {w : String} (h : isComplete w = true) :
    ∃ c cs, w.toList = c :: cs ∧ (splitLexeme c (cs ++ [' '])).2 = (c :: cs, [' ']) ∧
      isBlank c = false ∧ ∀ d ∈ (c :: cs).getLast?, isBlank d = false := by
  unfold isComplete at h
  split at h
  · cases h
  · rename_i c cs hw
    simp only [Bool.and_eq_true, Bool.not_eq_true', beq_iff_eq, Option.all_eq_true] at h
    exact ⟨c, cs, hw, h.1.1, h.1.2, h.2⟩

/-- No comment and no blank starts a complete lexeme. -/
theorem gapPiece_complete {c : Char}
    (h : (splitLexeme c (cs ++ [' '])).2 = (c :: cs, [' '])) (hc : isBlank c = false)
    (hrest : ∀ d ∈ rest.head?, endsLexeme d = true) :
    gapPiece? false (c :: cs ++ rest) = none := by
  have hascii : isAsciiBlank c = false := by
    rw [Bool.eq_false_iff]
    intro hblank
    rw [Text.isBlank_of_isAsciiBlank hblank] at hc
    cases hc
  refine gapPiece_eq_none_iff.2 ⟨hascii, ?_, fun _ => rfl⟩
  rintro rfl
  -- A slash is one lexeme by itself, so what ends the text before it stands behind it.
  have hlexeme : (splitLexeme '/' (cs ++ [' '])).2 = (['/'], cs ++ [' ']) := rfl
  rw [hlexeme] at h
  obtain rfl : [] = cs := (List.cons.inj (Prod.mk.inj h).1).2
  intro d hd
  have hends := hrest d hd
  simp only [endsLexeme, Bool.or_eq_true, beq_iff_eq] at hends
  rcases hends with (rfl | rfl) | rfl <;> decide

end Token

open Token in
/-- A complete lexeme reads as one piece. -/
theorem Reads.ofComplete {w : String} (h : isComplete w = true) :
    ∃ kind, Piece.Proper ⟨"", kind, w⟩ ∧ Reads w.toList [⟨"", kind, w⟩] endsLexeme := by
  obtain ⟨c, cs, hw, hlex, hhead, hlast⟩ := exists_of_isComplete h
  obtain ⟨d, hd⟩ : ∃ d, d ∈ (c :: cs).getLast? := by
    rw [List.getLast?_cons]
    exact ⟨_, rfl⟩
  refine ⟨(splitLexeme c (cs ++ [' '])).1, fun hdelimiter => ?_, ?_⟩
  · have hall : ∀ s ∈ delimiters, ∀ e ∈ s.toList.head?,
        (splitLexeme e (s.toList.tail ++ [' '])).1 = .punctuation := by decide
    have hkind := hall w hdelimiter c (by rw [hw]; rfl)
    rwa [hw] at hkind
  · rw [show w = String.ofList (c :: cs) by rw [← hw, String.ofList_toList], String.toList_ofList]
    exact lexeme (fun rest hrest => gapPiece_complete hlex hhead hrest)
      (fun rest hrest => splitLexeme_complete (Prod.ext rfl hlex) hrest)
      (atLineStart_of_getLast hd (hlast d hd) false)

/-! ## Lexemes with spaces between them -/

open Token (isComplete endsLexeme)
open Text (isBlank)

theorem reads_words {ws : List String} (hne : ws ≠ []) (h : ∀ w ∈ ws, isComplete w = true) :
    ∃ ps, Reads (' ' :: (" ".intercalate ws).toList) ps endsLexeme ∧ (∀ p ∈ ps, p.Proper) ∧
      ps.map Piece.text = ws := by
  induction ws with
  | nil => exact absurd rfl hne
  | cons w ws ih =>
    obtain ⟨kind, hproper, hw⟩ := Reads.ofComplete (h w List.mem_cons_self)
    have hfirst := hw.behind rfl (.inl rfl)
    have hbehind : (Piece.behind ' ' ⟨"", kind, w⟩).Proper := hproper
    cases ws with
    | nil => exact ⟨_, by simpa using hfirst, by simpa using hbehind, rfl⟩
    | cons v ws =>
      obtain ⟨ps, hps, hrest, htexts⟩ := ih (by simp) fun u hu => h u (List.mem_cons_of_mem _ hu)
      have hall := hfirst.append hps (by rintro c ⟨⟩; rfl) (by simp)
      refine ⟨[Piece.behind ' ' ⟨"", kind, w⟩] ++ ps, ?_, ?_, ?_⟩
      · rw [String.intercalate_cons_cons]
        simpa using hall
      · simpa using ⟨hbehind, hrest⟩
      · simp [htexts, Piece.behind]

theorem ends_of_words {ws : List String} (hne : ws ≠ []) (h : ∀ w ∈ ws, isComplete w = true) :
    (" ".intercalate ws).toList ≠ [] ∧
      (∀ c ∈ (" ".intercalate ws).toList.head?, isBlank c = false) ∧
      ∀ c ∈ (" ".intercalate ws).toList.getLast?, isBlank c = false := by
  induction ws with
  | nil => exact absurd rfl hne
  | cons w ws ih =>
    obtain ⟨c, cs, hw, -, hhead, hlast⟩ := Token.exists_of_isComplete (h w List.mem_cons_self)
    cases ws with
    | nil =>
      rw [String.intercalate_singleton, hw]
      exact ⟨by simp, by rintro d ⟨⟩; exact hhead, hlast⟩
    | cons v ws =>
      obtain ⟨hmore, -, hend⟩ := ih (by simp) fun u hu => h u (List.mem_cons_of_mem _ hu)
      rw [String.intercalate_cons_cons, String.toList_append, String.toList_append, hw]
      refine ⟨by simp, by rintro d ⟨⟩; exact hhead, fun d hd => hend d ?_⟩
      rwa [List.getLast?_append_of_ne_nil _ hmore] at hd

/-- A text spells its tokens and the complete lexemes behind it. -/
theorem Spells.beforeWords {cs : List Char} {ts ws : List String} {f : Char → Bool}
    (h : Spells cs ts f) (hcs : cs ≠ []) (hf : f ' ' = true) (hne : ws ≠ [])
    (hws : ∀ w ∈ ws, isComplete w = true) :
    Spells (cs ++ ' ' :: (" ".intercalate ws).toList) (ts ++ ws) endsLexeme := by
  obtain ⟨ps, hps, rfl⟩ := h
  obtain ⟨qs, hqs, hproper, rfl⟩ := reads_words hne hws
  obtain ⟨hnil, -, hlast⟩ := ends_of_words hne hws
  have hall := hps.extend hqs hcs hproper (by rwa [List.getLast?_cons_of_ne_nil hnil])
    (by rintro c ⟨⟩; exact hf) (by simp)
  exact ⟨ps ++ qs, hall, List.map_append⟩

/-- A word is a complete lexeme. -/
theorem isComplete_of_isWord {w : String} (h : Token.IsWord w.toList) : isComplete w = true := by
  unfold isComplete
  split
  · rename_i hnil
    rw [hnil] at h
    exact h.elim
  · rename_i c cs hcs
    rw [hcs] at h
    have hblank : ∀ d ∈ c :: cs, isBlank d = false := fun d hd =>
      Text.isBlank_eq_false_of_isWordChar (Token.isWordChar_of_mem h hd)
    have hends : Token.EndsWord (c :: cs) [' '] := by
      rintro d ⟨⟩
      exact ⟨by decide, fun hquote => absurd hquote (by decide)⟩
    have hlast : ∀ d ∈ (c :: cs).getLast?, isBlank d = false :=
      fun d hd => hblank d (List.mem_of_getLast? hd)
    simp only [Token.splitLexeme_word h hends, BEq.rfl, hblank c List.mem_cons_self, Bool.not_false,
      Bool.true_and]
    rw [Option.all_eq_true]
    exact fun d hd => by simp [hlast d hd]

end HeaderReflection
