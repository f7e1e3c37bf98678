import HeaderReflection.Proofs.Token.Stretch

/-!
# Pieces of a text

A piece is a token without its place. What pieces a stretch of text is cut into does not depend on
what stands around it, as long as nothing behind it goes on with its last lexeme.

* `map_piece_lexFrom`: the pieces of a text are the same wherever it stands.
* `Reads.append`: stretches that read as pieces read as both, one behind the other.
* `Reads.word`, `Reads.mark`, `Reads.scope`, `Reads.digits`, `Reads.lexeme`: single lexemes.
-/

namespace HeaderReflection

open Text (isBlank isAsciiBlank isAsciiDigit isAsciiAlphanumeric isWordChar isWordStart)

/-- A token without its place. -/
structure Piece where
  gap : String
  kind : Token.Kind
  text : String
  deriving DecidableEq, Repr

namespace Token

/-- The token without its place. -/
def piece (t : Token) : Piece :=
  ⟨t.gap, t.kind, t.text⟩

@[simp] theorem piece_gap (t : Token) : t.piece.gap = t.gap := rfl

@[simp] theorem piece_kind (t : Token) : t.piece.kind = t.kind := rfl

@[simp] theorem piece_text (t : Token) : t.piece.text = t.text := rfl

/-- The pieces of a text, given whether it starts a line. -/
def pieces (lineStart : Bool) (cs : List Char) : List Piece :=
  (lexFrom ⟨0, .start, lineStart⟩ cs).map piece

theorem atLineStart_append (before : Bool) (cs ds : List Char) :
    atLineStart before (cs ++ ds) = atLineStart (atLineStart before cs) ds :=
  List.foldl_append

theorem atLineStart_eq_false {cs : List Char} (h : '\n' ∉ cs) : atLineStart false cs = false := by
  induction cs with
  | nil => rfl
  | cons c cs ih =>
    simp only [List.mem_cons, not_or] at h
    obtain ⟨hc, hcs⟩ := h
    have hstep : atLineStart false (c :: cs) = atLineStart false cs := by
      simp [atLineStart, Ne.symm hc]
    rw [hstep, ih hcs]

theorem atLineStart_of_getLast {cs : List Char} {c : Char} (h : c ∈ cs.getLast?)
    (hc : isBlank c = false) (before : Bool) : atLineStart before cs = false := by
  obtain ⟨ds, rfl⟩ := List.getLast?_eq_some_iff.1 h
  have hline : c ≠ '\n' := by
    rintro rfl
    cases hc
  simp [atLineStart, hc, hline]

/-- The pieces of a text are the same wherever it stands. -/
theorem map_piece_lexFrom (k : Cursor) (cs : List Char) :
    (lexFrom k cs).map piece = pieces k.lineStart cs := by
  induction hn : cs.length using Nat.strong_induction_on generalizing k cs with
  | _ n ih =>
    rcases hg : splitGap k.lineStart cs with ⟨gap, _ | ⟨c, rest⟩⟩
    · rw [pieces, lexFrom_eq_nil (by rw [hg]), lexFrom_eq_nil (by rw [hg])]
    · have happ := congrArg List.length (append_splitGap k.lineStart cs)
      have hshort := length_splitLexeme_le c rest
      rw [hg] at happ
      simp only [List.length_append, List.length_cons] at happ
      have hlt : (splitLexeme c rest).2.2.length < n := by omega
      rw [pieces, lexFrom_eq_cons hg, lexFrom_eq_cons (k := ⟨0, .start, k.lineStart⟩) hg,
        List.map_cons, List.map_cons, ih _ hlt _ _ rfl, ih _ hlt _ _ rfl]
      rfl

theorem pieces_of_splitGap {lineStart : Bool} {cs gap rest : List Char} {c : Char}
    (h : splitGap lineStart cs = (gap, c :: rest)) :
    pieces lineStart cs =
      ⟨String.ofList gap, (splitLexeme c rest).1, String.ofList (splitLexeme c rest).2.1⟩ ::
        pieces (atLineStart (atLineStart lineStart gap) (splitLexeme c rest).2.1)
          (splitLexeme c rest).2.2 := by
  rw [pieces, lexFrom_eq_cons (k := ⟨0, .start, lineStart⟩) h, List.map_cons, map_piece_lexFrom]
  rfl

/-- Only directives depend on whether a line starts. -/
theorem gapPiece_lineStart {c : Char} {rest : List Char} (hc : c ≠ '#') (lineStart : Bool) :
    gapPiece? lineStart (c :: rest) = gapPiece? false (c :: rest) := by
  unfold gapPiece?
  split
  · rfl
  · rfl
  · rfl
  · rename_i heq
    obtain ⟨rfl, rfl⟩ := List.cons.inj heq
    simp [hc]

/-- Behind a lexeme that starts with no blank a line goes on as it does behind another one. -/
theorem atLineStart_splitLexeme {c : Char} (hc : isBlank c = false) (rest : List Char)
    (before : Bool) : atLineStart before (splitLexeme c rest).2.1 =
      atLineStart false (splitLexeme c rest).2.1 := by
  have happ := append_splitLexeme c rest
  obtain ⟨d, ds, hd⟩ := List.exists_cons_of_ne_nil (splitLexeme_ne_nil c rest)
  rw [hd] at happ ⊢
  rw [(List.cons.inj happ).1]
  simp [atLineStart, hc]

theorem pieces_of_splitGap_eq_nil {lineStart : Bool} {cs : List Char}
    (h : (splitGap lineStart cs).2 = []) : pieces lineStart cs = [] := by
  rw [pieces, lexFrom_eq_nil h, List.map_nil]

/-- Behind a line end it does not matter whether a line starts before it. -/
theorem pieces_newline (lineStart : Bool) (cs : List Char) :
    pieces lineStart ('\n' :: cs) = pieces false ('\n' :: cs) := by
  have hpiece : ∀ before, gapPiece? before ('\n' :: cs) = some (['\n'], cs) := fun _ => rfl
  have hline : ∀ before, atLineStart before ['\n'] = true := fun _ => rfl
  have hgap : ∀ before, splitGap before ('\n' :: cs) =
      ('\n' :: (splitGap true cs).1, (splitGap true cs).2) := fun before => by
    rw [splitGap_of_some (hpiece before), hline]
    rfl
  rcases hrest : (splitGap true cs).2 with _ | ⟨c, rest⟩
  · rw [pieces_of_splitGap_eq_nil (by rw [hgap, hrest]),
      pieces_of_splitGap_eq_nil (by rw [hgap, hrest])]
  · have hboth : ∀ before, splitGap before ('\n' :: cs) =
        ('\n' :: (splitGap true cs).1, c :: rest) := fun before => by rw [hgap, hrest]
    rw [pieces_of_splitGap (hboth lineStart), pieces_of_splitGap (hboth false)]
    rfl

end Token

namespace Piece

/-- The stretch of text that pieces and their gaps take up. -/
def spell (ps : List Piece) : List Char :=
  ps.flatMap fun p => p.gap.toList ++ p.text.toList

@[simp] theorem spell_nil : spell [] = [] := rfl

@[simp] theorem spell_cons (p : Piece) (ps : List Piece) :
    spell (p :: ps) = p.gap.toList ++ p.text.toList ++ spell ps := by
  simp [spell]

@[simp] theorem spell_append (ps qs : List Piece) : spell (ps ++ qs) = spell ps ++ spell qs := by
  simp [spell]

theorem toList_spell (ts : List Token) :
    (Token.spell ts).toList = spell (ts.map Token.piece) := by
  induction ts with
  | nil => rfl
  | cons t ts ih => simp [Token.toList_spell_cons, ih]

/-- The piece behind one blank. -/
def behind (b : Char) (p : Piece) : Piece :=
  { p with gap := String.ofList [b] }

@[simp] theorem behind_space (gap : String) (kind : Token.Kind) (text : String) :
    behind ' ' ⟨gap, kind, text⟩ = ⟨" ", kind, text⟩ := rfl

@[simp] theorem behind_newline (gap : String) (kind : Token.Kind) (text : String) :
    behind '\n' ⟨gap, kind, text⟩ = ⟨"\n", kind, text⟩ := rfl

end Piece

/-- Within a line, a text is cut into the given pieces, if nothing or one of the characters that may
follow stands behind it. -/
structure Reads (cs : List Char) (ps : List Piece) (follow : Char → Bool) : Prop where
  spell : Piece.spell ps = cs
  pieces : ∀ rest : List Char, (∀ c ∈ rest.head?, follow c = true) →
    Token.pieces false (cs ++ rest) = ps ++ Token.pieces false rest

namespace Reads

open Token

variable {cs ds : List Char} {p : Piece} {ps qs : List Piece} {f g : Char → Bool}

theorem nil (f : Char → Bool) : Reads [] [] f :=
  ⟨rfl, fun _ _ => rfl⟩

theorem weaken (h : Reads cs ps f) (hfg : ∀ c, g c = true → f c = true) : Reads cs ps g :=
  ⟨h.spell, fun rest hrest => h.pieces rest fun c hc => hfg c (hrest c hc)⟩

/-- Stretches that read as pieces read as both, one behind the other. -/
theorem append (h : Reads cs ps f) (h' : Reads ds qs g) (hhead : ∀ c ∈ ds.head?, f c = true)
    (hnil : ds = [] → ∀ c, g c = true → f c = true) : Reads (cs ++ ds) (ps ++ qs) g where
  spell := by rw [Piece.spell_append, h.spell, h'.spell]
  pieces rest hrest := by
    have hnext : ∀ c ∈ (ds ++ rest).head?, f c = true := by
      cases ds with
      | nil => exact fun c hc => hnil rfl c (hrest c hc)
      | cons d ds => exact hhead
    rw [List.append_assoc, h.pieces _ hnext, h'.pieces _ hrest, List.append_assoc]

theorem ne_nil (h : Reads cs (p :: ps) f) : cs ≠ [] := by
  rintro rfl
  have hread := h.pieces [] (by simp)
  rw [List.append_nil, pieces_of_splitGap_eq_nil (by rw [splitGap_of_none rfl])] at hread
  cases hread

/-- The first piece of a text has no gap only if no gap starts the text. -/
theorem gapPiece_eq_none (h : Reads cs (p :: ps) f) (hgap : p.gap = "") {rest : List Char}
    (hrest : ∀ c ∈ rest.head?, f c = true) : gapPiece? false (cs ++ rest) = none := by
  have hread := h.pieces rest hrest
  by_contra hsome
  obtain ⟨⟨piece, after⟩, hpiece⟩ := Option.ne_none_iff_exists'.1 hsome
  rcases hg : splitGap false (cs ++ rest) with ⟨gap, _ | ⟨c, tail⟩⟩
  · rw [pieces_of_splitGap_eq_nil (by rw [hg])] at hread
    cases hread
  · rw [pieces_of_splitGap hg] at hread
    have hfirst := congrArg (fun q => q.gap.toList) (List.cons.inj hread).1
    rw [splitGap_of_some hpiece] at hg
    simp only [String.toList_ofList, hgap, ← (Prod.mk.inj hg).1] at hfirst
    exact gapPiece_ne_nil hpiece (List.append_eq_nil_iff.1 hfirst).1

/-- Behind a blank a text is cut as it is without one. At the start of a line no directive and no
blank may follow. -/
theorem pieces_behind (h : Reads cs (p :: ps) f) (hgap : p.gap = "") {b : Char}
    (hb : isAsciiBlank b = true) {lineStart : Bool}
    (hhead : atLineStart lineStart [b] = false ∨ ∀ c ∈ cs.head?, c ≠ '#' ∧ isBlank c = false)
    {rest : List Char} (hrest : ∀ c ∈ rest.head?, f c = true) :
    Token.pieces lineStart (b :: (cs ++ rest)) = p.behind b :: ps ++ Token.pieces false rest := by
  have hread := h.pieces rest hrest
  have hnone := h.gapPiece_eq_none hgap hrest
  obtain ⟨c, tail, rfl⟩ := List.exists_cons_of_ne_nil h.ne_nil
  rw [List.cons_append] at hread hnone
  have hnone' : gapPiece? (atLineStart lineStart [b]) (c :: (tail ++ rest)) = none := by
    rcases hhead with hline | hhead
    · rw [hline]
      exact hnone
    · exact gapPiece_lineStart (hhead c rfl).1 _ ▸ hnone
  have hpiece : gapPiece? lineStart (b :: (c :: (tail ++ rest))) =
      some ([b], c :: (tail ++ rest)) := by
    unfold gapPiece?
    split
    · rename_i heq
      cases heq
    · rename_i heq
      obtain ⟨rfl, -⟩ := List.cons.inj heq
      cases hb
    · rename_i heq
      obtain ⟨rfl, -⟩ := List.cons.inj heq
      cases hb
    · rename_i heq
      obtain ⟨rfl, rfl⟩ := List.cons.inj heq
      rw [if_pos hb]
  have hlexeme : atLineStart (atLineStart lineStart [b]) (splitLexeme c (tail ++ rest)).2.1 =
      atLineStart false (splitLexeme c (tail ++ rest)).2.1 := by
    rcases hhead with hline | hhead
    · rw [hline]
    · exact atLineStart_splitLexeme (hhead c rfl).2 _ _
  rw [pieces_of_splitGap (splitGap_of_none hnone)] at hread
  obtain ⟨rfl, htail⟩ := List.cons.inj hread
  rw [List.cons_append,
    pieces_of_splitGap (by rw [splitGap_of_some hpiece, splitGap_of_none hnone']),
    List.append_nil, hlexeme]
  exact congrArg _ htail

/-- A text that reads as pieces also does behind a blank. What starts a line must be no directive
and no blank. -/
theorem behind (h : Reads cs (p :: ps) f) (hgap : p.gap = "") {b : Char}
    (hb : b = ' ' ∨ b = '\n' ∧ ∀ c ∈ cs.head?, c ≠ '#' ∧ isBlank c = false) :
    Reads (b :: cs) (p.behind b :: ps) f where
  spell := by
    have hspell := h.spell
    simp only [Piece.spell_cons, hgap] at hspell
    simp [Piece.behind, ← hspell]
  pieces rest hrest := by
    rcases hb with rfl | ⟨rfl, hhead⟩
    · exact h.pieces_behind hgap rfl (.inl rfl) hrest
    · exact h.pieces_behind hgap rfl (.inr hhead) hrest

/-! ## Single lexemes -/

/-- A lexeme that nothing goes on with reads as one piece. -/
theorem lexeme {c : Char} {kind : Kind}
    (hgap : ∀ rest : List Char, (∀ d ∈ rest.head?, f d = true) →
      gapPiece? false (c :: cs ++ rest) = none)
    (hlex : ∀ rest : List Char, (∀ d ∈ rest.head?, f d = true) →
      splitLexeme c (cs ++ rest) = (kind, c :: cs, rest))
    (hline : atLineStart false (c :: cs) = false) :
    Reads (c :: cs) [⟨"", kind, String.ofList (c :: cs)⟩] f where
  spell := by simp
  pieces rest hrest := by
    have hnone := hgap rest hrest
    rw [List.cons_append] at hnone ⊢
    rw [pieces_of_splitGap (splitGap_of_none hnone), hlex rest hrest,
      show atLineStart false [] = false from rfl, hline]
    rfl

/-- The character ends a word before it. -/
def endsWord (c : Char) : Bool :=
  !isWordChar c && c != doubleQuote

theorem newline_not_mem_word {w : List Char} (hw : IsWord w) : '\n' ∉ w :=
  fun h => absurd (isWordChar_of_mem hw h) (by decide)

theorem word {w : List Char} (hw : IsWord w) :
    Reads w [⟨"", .identifier, String.ofList w⟩] endsWord := by
  have hline := atLineStart_eq_false (newline_not_mem_word hw)
  cases w with
  | nil => exact hw.elim
  | cons c w =>
    refine lexeme (fun rest _ => ?_) (fun rest hrest => ?_) hline
    · exact gapPiece_of_opensLexeme (opensLexeme_of_isWordStart hw.1) false _
    · refine splitLexeme_word hw fun d hd => ?_
      have hends := hrest d hd
      simp only [endsWord, Bool.and_eq_true, Bool.not_eq_true', bne_iff_ne, ne_eq] at hends
      exact ⟨hends.1, fun h => absurd h hends.2⟩

/-- The punctuation that is one token whatever stands around it. -/
def isMark (c : Char) : Bool :=
  ['(', ')', '<', '>', ',', ';', '\x7b', '\x7d', '[', ']', '*', '&', '='].contains c

theorem splitLexeme_mark {c : Char} (hc : isMark c = true) (rest : List Char) :
    splitLexeme c rest = (.punctuation, [c], rest) := by
  have hall : isWordStart c = false ∧ isAsciiDigit c = false ∧ c ≠ '.' ∧ c ≠ doubleQuote ∧
      c ≠ singleQuote ∧ c ≠ ':' := by
    revert c
    simp only [isMark, List.contains_eq_mem, decide_eq_true_eq]
    decide
  obtain ⟨hword, hdigit, hpoint, hdouble, hsingle, hcolon⟩ := hall
  simp [splitLexeme, hword, hdigit, hpoint, hdouble, hsingle, hcolon]

theorem opensLexeme_of_isMark {c : Char} (hc : isMark c = true) : opensLexeme c = true := by
  revert c
  simp only [isMark, List.contains_eq_mem, decide_eq_true_eq]
  decide

theorem mark {c : Char} (hc : isMark c = true) (f : Char → Bool) :
    Reads [c] [⟨"", .punctuation, String.ofList [c]⟩] f := by
  have hline : '\n' ∉ [c] := by
    rw [List.mem_singleton]
    rintro rfl
    cases hc
  exact lexeme (fun rest _ => gapPiece_of_opensLexeme (opensLexeme_of_isMark hc) false _)
    (fun rest _ => splitLexeme_mark hc rest) (atLineStart_eq_false hline)

theorem scope (f : Char → Bool) : Reads [':', ':'] [⟨"", .punctuation, "::"⟩] f :=
  lexeme (fun rest _ => gapPiece_of_opensLexeme (by decide) false _) (fun rest _ => rfl) rfl

theorem colon {f : Char → Bool} (hf : ∀ c, f c = true → c ≠ ':') :
    Reads [':'] [⟨"", .punctuation, ":"⟩] f := by
  refine lexeme (fun rest _ => gapPiece_of_opensLexeme (by decide) false _)
    (fun rest hrest => ?_) rfl
  cases rest with
  | nil => rfl
  | cons d rest =>
    have hd := hf d (hrest d rfl)
    simp [splitLexeme, hd, show isWordStart ':' = false from rfl,
      show isAsciiDigit ':' = false from rfl, doubleQuote, singleQuote]

/-- The character ends a whole number before it. -/
def endsDigits (c : Char) : Bool :=
  !isAsciiAlphanumeric c && c != '.' && c != singleQuote

theorem splitNumber_digits {previous : Char} {ds rest : List Char}
    (hprevious : isAsciiDigit previous = true) (hds : ∀ d ∈ ds, isAsciiDigit d = true)
    (hrest : ∀ d ∈ rest.head?, endsDigits d = true) :
    splitNumber previous (ds ++ rest) = (ds, rest) := by
  induction ds generalizing previous with
  | nil =>
    cases rest with
    | nil => rfl
    | cons c rest =>
      have hends := hrest c rfl
      simp only [endsDigits, Bool.and_eq_true, Bool.not_eq_true', bne_iff_ne, ne_eq] at hends
      have hexponent : previous ∉ ['e', 'E', 'p', 'P'] := by
        intro h
        simp only [List.mem_cons, List.not_mem_nil, or_false] at h
        rcases h with rfl | rfl | rfl | rfl <;> cases hprevious
      rw [List.nil_append, splitNumber, if_neg]
      simp only [List.contains_eq_mem, hexponent]
      simp [hends.1.1, hends.1.2, hends.2]
  | cons d ds ih =>
    have hd := hds d List.mem_cons_self
    have hrun := ih hd fun e he => hds e (List.mem_cons_of_mem _ he)
    have halnum : isAsciiAlphanumeric d = true := by simp [isAsciiAlphanumeric, hd]
    rw [List.cons_append, splitNumber]
    simp [halnum, hrun]

theorem digits {ds : List Char} (hne : ds ≠ []) (hds : ∀ d ∈ ds, isAsciiDigit d = true) :
    Reads ds [⟨"", .number, String.ofList ds⟩] endsDigits := by
  have hline : '\n' ∉ ds := fun h => absurd (hds _ h) (by decide)
  obtain ⟨c, ds, rfl⟩ := List.exists_cons_of_ne_nil hne
  have hc := hds c List.mem_cons_self
  have hstart := Text.isWordStart_eq_false_of_isAsciiDigit hc
  have hchar : isWordChar c = true := by
    simp [isWordChar, Text.isAlphanumeric_of_isAsciiDigit hc]
  refine lexeme (fun rest _ => gapPiece_of_opensLexeme (opensLexeme_of_isWordChar hchar) false _)
    (fun rest hrest => ?_) (atLineStart_eq_false hline)
  · have hrun := splitNumber_digits hc (fun d hd => hds d (List.mem_cons_of_mem _ hd)) hrest
    simp [splitLexeme, hstart, hc, hrun]

end Reads

end HeaderReflection
