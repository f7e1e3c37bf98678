import Mathlib.Data.List.DropRight
import HeaderReflection.Proofs.Text.CharClass
import HeaderReflection.Token.Basic

/-!
# Tokens of a stretch of text

* `exists_lexFrom_of_append`: tokens are cut where the text is, and their spelling is the text
  before the cut.
* `lexFrom_word`: a word that nothing continues is one token.
-/

namespace HeaderReflection

open Text (isBlank isWordChar isWordStart)

namespace Token

/-! ## One token at a time -/

theorem lexFrom_eq_nil {k : Cursor} {cs : List Char} (h : (splitGap k.lineStart cs).2 = []) :
    lexFrom k cs = [] :=
  (lexFrom_eq_nil_iff k cs).2 h

theorem lexFrom_eq_cons {k : Cursor} {cs gap rest : List Char} {c : Char}
    (h : splitGap k.lineStart cs = (gap, c :: rest)) :
    lexFrom k cs =
      { kind := (splitLexeme c rest).1, text := String.ofList (splitLexeme c rest).2.1
        gap := String.ofList gap, offset := (k.past gap).offset
        position := (k.past gap).position } ::
      lexFrom ((k.past gap).past (splitLexeme c rest).2.1) (splitLexeme c rest).2.2 := by
  rw [lexFrom]
  dsimp only
  split
  · rename_i h'
    rw [h] at h'
    cases h'
  · rename_i c' rest' h'
    rw [h] at h'
    cases h'
    rw [h]

/-- The first token with what precedes and follows it. -/
theorem lexFrom_eq_cons_iff {k : Cursor} {cs : List Char} {t : Token} {ts : List Token}
    (h : lexFrom k cs = t :: ts) :
    ∃ gap c rest, splitGap k.lineStart cs = (gap, c :: rest) ∧ t.gap = String.ofList gap ∧
      t.kind = (splitLexeme c rest).1 ∧ t.text = String.ofList (splitLexeme c rest).2.1 ∧
      ts = lexFrom ((k.past gap).past (splitLexeme c rest).2.1) (splitLexeme c rest).2.2 := by
  rcases hg : splitGap k.lineStart cs with ⟨gap, _ | ⟨c, rest⟩⟩
  · rw [lexFrom_eq_nil (by rw [hg])] at h
    cases h
  · rw [lexFrom_eq_cons hg] at h
    obtain ⟨rfl, rfl⟩ := List.cons.inj h
    exact ⟨gap, c, rest, rfl, rfl, rfl, rfl, rfl⟩

@[simp] theorem spell_nil : spell [] = "" := rfl

theorem toList_spell_cons (t : Token) (ts : List Token) :
    (spell (t :: ts)).toList = t.gap.toList ++ t.text.toList ++ (spell ts).toList := by
  simp [spell, String.join_cons]

/-- Tokens are cut where the text is. -/
theorem exists_lexFrom_of_append {k : Cursor} {cs : List Char} {ts us : List Token}
    (h : lexFrom k cs = ts ++ us) :
    ∃ k' rest, us = lexFrom k' rest ∧ cs = (spell ts).toList ++ rest := by
  induction ts generalizing k cs with
  | nil => exact ⟨k, cs, h.symm, rfl⟩
  | cons t ts ih =>
    obtain ⟨gap, c, rest, hg, hgap, -, htext, hts⟩ := lexFrom_eq_cons_iff h
    obtain ⟨k', tail, hus, htail⟩ := ih hts.symm
    refine ⟨k', tail, hus, ?_⟩
    have hcs := append_splitGap k.lineStart cs
    have hlex := append_splitLexeme c rest
    rw [hg] at hcs
    rw [toList_spell_cons, hgap, htext, String.toList_ofList, String.toList_ofList, ← hcs, ← hlex,
      htail]
    simp

/-! ## Words -/

/-- No gap starts with this character. -/
def opensLexeme (c : Char) : Bool :=
  !Text.isAsciiBlank c && c != '/' && c != '#'

theorem gapPiece_of_opensLexeme {c : Char} (h : opensLexeme c = true) (lineStart : Bool)
    (rest : List Char) : gapPiece? lineStart (c :: rest) = none := by
  simp only [opensLexeme, Bool.and_eq_true, Bool.not_eq_true', bne_iff_ne, ne_eq] at h
  obtain ⟨⟨hblank, hslash⟩, hsharp⟩ := h
  unfold gapPiece?
  split
  · rfl
  · rename_i heq
    exact absurd (List.cons.inj heq).1 hslash
  · rename_i heq
    exact absurd (List.cons.inj heq).1 hslash
  · rename_i heq
    obtain ⟨rfl, rfl⟩ := List.cons.inj heq
    simp [hblank, hsharp]

theorem splitGap_of_opensLexeme {c : Char} (h : opensLexeme c = true) (lineStart : Bool)
    (rest : List Char) : splitGap lineStart (c :: rest) = ([], c :: rest) :=
  splitGap_of_none (gapPiece_of_opensLexeme h lineStart rest)

theorem opensLexeme_of_isWordChar {c : Char} (h : isWordChar c = true) :
    opensLexeme c = true := by
  have hblank := Text.isBlank_eq_false_of_isWordChar h
  have hascii : Text.isAsciiBlank c = false := by
    rw [Bool.eq_false_iff]
    intro hc
    rw [Text.isBlank_of_isAsciiBlank hc] at hblank
    cases hblank
  simp only [opensLexeme, hascii, Bool.not_false, Bool.true_and, Bool.and_eq_true, bne_iff_ne]
  constructor <;> (rintro rfl; revert h; decide)

theorem opensLexeme_of_isWordStart {c : Char} (h : isWordStart c = true) :
    opensLexeme c = true :=
  opensLexeme_of_isWordChar (Text.isWordChar_of_isWordStart h)

/-- A word: it starts like one and goes on like one. -/
def IsWord : List Char → Prop
  | [] => False
  | c :: cs => isWordStart c = true ∧ ∀ d ∈ cs, isWordChar d = true

instance : (cs : List Char) → Decidable (IsWord cs)
  | [] => .isFalse id
  | _ :: _ => inferInstanceAs (Decidable (_ ∧ _))

/-- The text behind a word does not go on with it: no character of words follows, and no quote if
the word can mark a string. -/
def EndsWord (word rest : List Char) : Prop :=
  ∀ c ∈ rest.head?, isWordChar c = false ∧
    (c = doubleQuote → word ∉ rawStringMarks ∧ word ∉ encodingMarks)

theorem splitLexeme_word {c : Char} {cs rest : List Char} (hword : IsWord (c :: cs))
    (hrest : EndsWord (c :: cs) rest) :
    splitLexeme c (cs ++ rest) = (.identifier, c :: cs, rest) := by
  obtain ⟨hstart, hgo⟩ := hword
  have hend : ∀ d ∈ rest.head?, isWordChar d = false := fun d hd => (hrest d hd).1
  unfold splitLexeme
  rw [if_pos hstart, Text.takeWhile_run hgo hend, Text.dropWhile_run hgo hend]
  cases rest with
  | nil => rfl
  | cons d rest =>
    have hmarks := (hrest d rfl).2
    unfold splitWord
    by_cases hd : d = doubleQuote
    · have h := hmarks hd
      simp [h.1, h.2]
    · simp [hd]

@[simp] theorem Cursor.past_nil (k : Cursor) : k.past [] = k := rfl

/-- A word that nothing continues is one token. -/
theorem lexFrom_word {word rest : List Char} (hword : IsWord word) (hrest : EndsWord word rest)
    (k : Cursor) :
    lexFrom k (word ++ rest) =
      { kind := .identifier, text := String.ofList word, gap := ""
        offset := k.offset, position := k.position } :: lexFrom (k.past word) rest := by
  cases word with
  | nil => exact hword.elim
  | cons c cs =>
    have hgap := splitGap_of_opensLexeme (opensLexeme_of_isWordStart hword.1) k.lineStart
      (cs ++ rest)
    rw [List.cons_append, lexFrom_eq_cons hgap, splitLexeme_word hword hrest]
    rfl

theorem isWordChar_of_mem {word : List Char} (hword : IsWord word) {d : Char} (hd : d ∈ word) :
    isWordChar d = true := by
  cases word with
  | nil => cases hd
  | cons c cs =>
    rcases List.mem_cons.1 hd with rfl | hd
    · exact Text.isWordChar_of_isWordStart hword.1
    · exact hword.2 d hd

/-- A token that is a word takes up all the word's characters. -/
theorem head_behind_word {c : Char} {rest after word : List Char} {kind : Kind}
    (hword : IsWord word) (h : splitLexeme c rest = (kind, word, after)) :
    ∀ d ∈ after.head?, isWordChar d = false := by
  have happ := append_splitLexeme c rest
  rw [h] at happ
  have hstart : isWordStart c = true := by
    cases word with
    | nil => exact hword.elim
    | cons d ds =>
      rw [← (List.cons.inj happ).1]
      exact hword.1
  have hdrop : ∀ d ∈ (rest.dropWhile isWordChar).head?, isWordChar d = false := by
    intro d hd
    have hnot := List.head?_dropWhile_not isWordChar rest
    rw [hd] at hnot
    exact hnot
  have hquoted : ∀ {w s tail : List Char} {k : Kind}, (k, w ++ doubleQuote :: s, tail) ≠
      (kind, word, after) := by
    intro w s tail k heq
    have hmem : doubleQuote ∈ word := by
      rw [← (Prod.mk.inj (Prod.mk.inj heq).2).1]
      simp
    exact absurd (isWordChar_of_mem hword hmem) (by decide)
  unfold splitLexeme at h
  rw [if_pos hstart] at h
  unfold splitWord at h
  split at h
  · rename_i hnil
    rw [← (Prod.mk.inj (Prod.mk.inj h).2).2, hnil]
    simp
  · rename_i d ds hds
    split at h
    · rename_i hd
      rw [of_decide_eq_true (Bool.and_eq_true_iff.1 hd).1] at h
      exact absurd h hquoted
    · split at h
      · rename_i hd
        rw [of_decide_eq_true (Bool.and_eq_true_iff.1 hd).1] at h
        exact absurd h hquoted
      · rw [← (Prod.mk.inj (Prod.mk.inj h).2).2]
        exact hdrop

end Token

end HeaderReflection
