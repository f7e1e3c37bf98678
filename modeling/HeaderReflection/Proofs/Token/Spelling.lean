import HeaderReflection.Declaration.Enumerators
import HeaderReflection.Proofs.Token.Pieces

/-!
# Texts that spell tokens

* `Spells.append`, `Spells.spaced`: texts that spell tokens, with and without a space between them.
* `tokens_of_spells`, `tokens_append_of_spells`: on its own a text falls into the tokens that it
  spells, and one that goes on starts with them.
-/

namespace HeaderReflection

open Text (isBlank isAsciiDigit)

theorem toList_ne_nil {s : String} (h : s ≠ "") : s.toList ≠ [] :=
  fun hnil => h (String.toList_inj.1 hnil)

theorem append_ne_empty_left {s : String} (h : s ≠ "") (t : String) : s ++ t ≠ "" := by
  intro hst
  rw [String.append_eq_empty_iff] at hst
  exact h hst.1

theorem append_ne_empty_right {t : String} (h : t ≠ "") (s : String) : s ++ t ≠ "" := by
  intro hst
  rw [String.append_eq_empty_iff] at hst
  exact h hst.2

theorem intercalate_ne_empty {separator : String} {path : List String} (hne : path ≠ [])
    (h : ∀ s ∈ path, s ≠ "") : separator.intercalate path ≠ "" := by
  cases path with
  | nil => exact absurd rfl hne
  | cons s path =>
    have hs := h s List.mem_cons_self
    cases path with
    | nil => rwa [String.intercalate_singleton]
    | cons next path =>
      rw [String.intercalate_cons_cons, String.append_assoc]
      exact append_ne_empty_left hs _

/-- The brackets and separators of declarations. -/
def delimiters : List String :=
  ["(", ")", "[", "]", "<", ">", "\x7b", "\x7d", ",", ";", ":", "="]

/-- Only punctuation looks like a delimiter. -/
def Piece.Proper (p : Piece) : Prop :=
  p.text ∈ delimiters → p.kind = .punctuation

/-- The character ends every word and number before it. -/
def isBreak (c : Char) : Bool :=
  c == ' ' || c == '\n' || Reads.isMark c

theorem ends_of_isBreak {c : Char} (h : isBreak c = true) :
    Reads.endsWord c = true ∧ Reads.endsDigits c = true ∧ c ≠ ':' := by
  have hmem : c ∈ [' ', '\n', '(', ')', '<', '>', ',', ';', '\x7b', '\x7d', '[', ']', '*', '&',
      '='] := by
    simpa [isBreak, Reads.isMark, or_assoc] using h
  clear h
  revert c
  decide

/-- Within a line, a text is cut into the given pieces, the first of which has no gap. No directive
and no blank starts it, and no blank ends it. -/
structure SpellsPieces (cs : List Char) (ps : List Piece) (follow : Char → Bool) : Prop
    extends Reads cs ps follow where
  proper : ∀ p ∈ ps, p.Proper
  tight : ∀ p ∈ ps.head?, p.gap = ""
  head : ∀ c ∈ cs.head?, c ≠ '#' ∧ isBlank c = false
  last : ∀ c ∈ cs.getLast?, isBlank c = false

/-- Within a line, a text is cut into tokens with the given texts. -/
def Spells (cs : List Char) (texts : List String) (follow : Char → Bool) : Prop :=
  ∃ ps, SpellsPieces cs ps follow ∧ ps.map Piece.text = texts

variable {cs ds : List Char} {p : Piece} {ps qs : List Piece} {ts us : List String}
  {f g : Char → Bool}

namespace SpellsPieces

theorem eq_nil_iff (h : SpellsPieces cs ps f) : ps = [] ↔ cs = [] := by
  constructor
  · rintro rfl
    exact h.spell.symm
  · rintro rfl
    cases ps with
    | nil => rfl
    | cons p ps => exact absurd rfl h.toReads.ne_nil

theorem append (h : SpellsPieces cs ps f) (h' : SpellsPieces ds qs g)
    (hhead : ∀ c ∈ ds.head?, f c = true) (hnil : ds = [] → ∀ c, g c = true → f c = true) :
    SpellsPieces (cs ++ ds) (ps ++ qs) g where
  toReads := h.toReads.append h'.toReads hhead hnil
  proper p hp := (List.mem_append.1 hp).elim (h.proper p) (h'.proper p)
  tight p hp := by
    cases ps with
    | nil => exact h'.tight p hp
    | cons q ps => exact h.tight p hp
  head c hc := by
    cases cs with
    | nil => exact h'.head c hc
    | cons d cs => exact h.head c hc
  last c hc := by
    cases ds with
    | nil =>
      rw [List.append_nil] at hc
      exact h.last c hc
    | cons d ds =>
      rw [List.getLast?_append_of_ne_nil _ (by simp)] at hc
      exact h'.last c hc

/-- A text that spells pieces and goes on with others spells both. -/
theorem extend (h : SpellsPieces cs ps f) (h' : Reads ds qs g) (hne : cs ≠ [])
    (hproper : ∀ p ∈ qs, p.Proper) (hlast : ∀ c ∈ ds.getLast?, isBlank c = false)
    (hhead : ∀ c ∈ ds.head?, f c = true) (hnil : ds = [] → ∀ c, g c = true → f c = true) :
    SpellsPieces (cs ++ ds) (ps ++ qs) g where
  toReads := h.toReads.append h' hhead hnil
  proper p hp := (List.mem_append.1 hp).elim (h.proper p) (hproper p)
  tight p hp := by
    cases ps with
    | nil => exact absurd (h.eq_nil_iff.1 rfl) hne
    | cons q ps => exact h.tight p hp
  head c hc := by
    cases cs with
    | nil => exact absurd rfl hne
    | cons d cs => exact h.head c hc
  last c hc := by
    cases ds with
    | nil =>
      rw [List.append_nil] at hc
      exact h.last c hc
    | cons d ds =>
      rw [List.getLast?_append_of_ne_nil _ (by simp)] at hc
      exact hlast c hc

theorem spaced (h : SpellsPieces cs ps f) (h' : SpellsPieces ds (p :: qs) g) (hne : cs ≠ [])
    (hf : f ' ' = true) : SpellsPieces (cs ++ ' ' :: ds) (ps ++ p.behind ' ' :: qs) g := by
  refine h.extend (h'.toReads.behind (h'.tight p rfl) (.inl rfl)) hne ?_ ?_
    (by rintro c ⟨⟩; exact hf) (by simp)
  · exact List.forall_mem_cons.2
      ⟨h'.proper p List.mem_cons_self, fun q hq => h'.proper q (List.mem_cons_of_mem _ hq)⟩
  · intro c hc
    rw [List.getLast?_cons_of_ne_nil h'.toReads.ne_nil] at hc
    exact h'.last c hc

/-- A lexeme in front of a text. -/
theorem cons {c : Char} {taken more : List Char} {kind : Token.Kind}
    (h : SpellsPieces more ps f) (hopens : Token.opensLexeme c = true)
    (hlex : ∀ rest : List Char, (∀ d ∈ rest.head?, f d = true) →
      Token.splitLexeme c (taken ++ more ++ rest) = (kind, c :: taken, more ++ rest))
    (hproper : Piece.Proper ⟨"", kind, String.ofList (c :: taken)⟩)
    (hblank : ∀ d ∈ c :: taken, isBlank d = false) :
    SpellsPieces (c :: (taken ++ more)) (⟨"", kind, String.ofList (c :: taken)⟩ :: ps) f := by
  have hlast : ∀ d ∈ (c :: taken).getLast?, isBlank d = false :=
    fun d hd => hblank d (List.mem_of_getLast? hd)
  refine ⟨⟨?_, fun rest hrest => ?_⟩, ?_, ?_, ?_, ?_⟩
  · simp [h.spell]
  · obtain ⟨d, hd⟩ : ∃ d, d ∈ (c :: taken).getLast? := by
      rw [List.getLast?_cons]
      exact ⟨_, rfl⟩
    have hline := Token.atLineStart_of_getLast hd (hlast d hd) false
    have hnone := Token.gapPiece_of_opensLexeme hopens false (taken ++ more ++ rest)
    rw [List.cons_append, Token.pieces_of_splitGap (Token.splitGap_of_none hnone), hlex rest hrest,
      show Token.atLineStart false [] = false from rfl, hline]
    exact congrArg _ (h.pieces rest hrest)
  · rw [List.forall_mem_cons]
    exact ⟨hproper, h.proper⟩
  · rintro p ⟨⟩
    rfl
  · rintro d ⟨⟩
    refine ⟨?_, hblank c List.mem_cons_self⟩
    rintro rfl
    cases hopens
  · intro d hd
    rw [← List.cons_append] at hd
    cases more with
    | nil => exact hlast d (by rwa [List.append_nil] at hd)
    | cons e more =>
      rw [List.getLast?_append_of_ne_nil _ (by simp)] at hd
      exact h.last d hd

/-! ## Single lexemes -/

theorem ofReads {kind : Token.Kind} {text : String} (h : Reads cs [⟨"", kind, text⟩] f)
    (hproper : text ∈ delimiters → kind = .punctuation)
    (hchars : ∀ c ∈ cs, c ≠ '#' ∧ isBlank c = false) :
    SpellsPieces cs [⟨"", kind, text⟩] f :=
  ⟨h, by simpa [Piece.Proper] using hproper, by simp,
    fun c hc => hchars c (List.mem_of_mem_head? hc),
    fun c hc => (hchars c (List.mem_of_getLast? hc)).2⟩

theorem ne_sharp_of_isWordChar {c : Char} (hword : Text.isWordChar c = true) :
    c ≠ '#' ∧ isBlank c = false := by
  refine ⟨?_, Text.isBlank_eq_false_of_isWordChar hword⟩
  rintro rfl
  exact absurd hword (by decide)

theorem word {w : String} (hw : Token.IsWord w.toList) :
    SpellsPieces w.toList [⟨"", .identifier, w⟩] Reads.endsWord := by
  have hreads := Reads.word hw
  rw [String.ofList_toList] at hreads
  refine ofReads hreads (fun hdelimiter => ?_)
    (fun c hc => ne_sharp_of_isWordChar (Token.isWordChar_of_mem hw hc))
  have hnone : ∀ s ∈ delimiters, ¬Token.IsWord s.toList := by decide
  exact absurd hw (hnone w hdelimiter)

theorem mark {c : Char} (hc : Reads.isMark c = true) (f : Char → Bool) :
    SpellsPieces [c] [⟨"", .punctuation, String.ofList [c]⟩] f := by
  refine ofReads (.mark hc f) (fun _ => rfl) ?_
  have hall : ∀ c ∈ ['(', ')', '<', '>', ',', ';', '\x7b', '\x7d', '[', ']', '*', '&', '='],
      c ≠ '#' ∧ isBlank c = false := by decide
  intro d hd
  rw [List.mem_singleton.1 hd]
  exact hall c (by simpa [Reads.isMark] using hc)

theorem colon : SpellsPieces [':'] [⟨"", .punctuation, ":"⟩] isBreak :=
  ofReads (.colon fun _ h => (ends_of_isBreak h).2.2) (fun _ => rfl) (by decide)

end SpellsPieces

namespace Spells

theorem nil (f : Char → Bool) : Spells [] [] f :=
  ⟨[], ⟨.nil f, by simp, by simp, by simp, by simp⟩, rfl⟩

theorem weaken (h : Spells cs ts f) (hfg : ∀ c, g c = true → f c = true) : Spells cs ts g := by
  obtain ⟨ps, hps, htexts⟩ := h
  exact ⟨ps, { hps with toReads := hps.toReads.weaken hfg }, htexts⟩

/-- Texts that spell tokens spell both, one behind the other. -/
theorem append (h : Spells cs ts f) (h' : Spells ds us g) (hhead : ∀ c ∈ ds.head?, f c = true)
    (hnil : ds = [] → ∀ c, g c = true → f c = true) : Spells (cs ++ ds) (ts ++ us) g := by
  obtain ⟨ps, hps, rfl⟩ := h
  obtain ⟨qs, hqs, rfl⟩ := h'
  exact ⟨ps ++ qs, hps.append hqs hhead hnil, List.map_append⟩

/-- Texts that spell tokens spell both with a space between them. -/
theorem spaced (h : Spells cs ts f) (h' : Spells ds us g) (hcs : cs ≠ []) (hds : ds ≠ [])
    (hf : f ' ' = true) : Spells (cs ++ ' ' :: ds) (ts ++ us) g := by
  obtain ⟨ps, hps, rfl⟩ := h
  obtain ⟨qs, hqs, rfl⟩ := h'
  cases qs with
  | nil => exact absurd (hqs.eq_nil_iff.1 rfl) hds
  | cons q qs => exact ⟨_, hps.spaced hqs hcs hf, by simp [Piece.behind]⟩

theorem word {w : String} (hw : Token.IsWord w.toList) : Spells w.toList [w] Reads.endsWord :=
  ⟨_, .word hw, rfl⟩

theorem digits {w : String} (hne : w.toList ≠ []) (hw : ∀ d ∈ w.toList, isAsciiDigit d = true) :
    Spells w.toList [w] Reads.endsDigits := by
  have hreads := Reads.digits hne hw
  rw [String.ofList_toList] at hreads
  refine ⟨_, .ofReads hreads (fun hdelimiter => ?_)
    fun c hc => SpellsPieces.ne_sharp_of_isWordChar ?_, rfl⟩
  · have hnone : ∀ s ∈ delimiters, ¬∀ d ∈ s.toList, isAsciiDigit d = true := by decide
    exact absurd hw (hnone w hdelimiter)
  · simp [Text.isWordChar, Text.isAlphanumeric_of_isAsciiDigit (hw c hc)]

theorem mark {c : Char} (hc : Reads.isMark c = true) (f : Char → Bool) :
    Spells [c] [String.ofList [c]] f :=
  ⟨_, .mark hc f, rfl⟩

/-- Marks are tokens one by one. -/
theorem marks (hcs : ∀ c ∈ cs, Reads.isMark c = true) (f : Char → Bool) :
    Spells cs (cs.map fun c => String.ofList [c]) f := by
  induction cs with
  | nil => exact nil f
  | cons c cs ih =>
    have hrest := ih fun d hd => hcs d (List.mem_cons_of_mem _ hd)
    exact (mark (hcs c List.mem_cons_self) fun _ => true).append hrest (by simp) (by simp)

theorem scope (f : Char → Bool) : Spells [':', ':'] ["::"] f :=
  ⟨_, .ofReads (.scope f) (fun _ => rfl) (by decide), rfl⟩

theorem colon : Spells [':'] [":"] isBreak :=
  ⟨_, .colon, rfl⟩

/-- Texts with a comma and a space between them. -/
theorem joined {α : Type} {text : α → String} {tokens : α → List String} {xs : List α}
    (hcomma : f ',' = true)
    (h : ∀ x ∈ xs, Spells (text x).toList (tokens x) f ∧ text x ≠ "") :
    Spells (", ".intercalate (xs.map text)).toList ([","].intercalate (xs.map tokens)) f := by
  induction xs with
  | nil => exact nil _
  | cons x xs ih =>
    obtain ⟨hx, -⟩ := h x List.mem_cons_self
    cases xs with
    | nil => simpa using hx
    | cons y xs =>
      have hrest := ih fun z hz => h z (List.mem_cons_of_mem _ hz)
      have hne : ", ".intercalate ((y :: xs).map text) ≠ "" := by
        refine intercalate_ne_empty (by simp) fun t ht => ?_
        obtain ⟨z, hz, rfl⟩ := List.mem_map.1 ht
        exact (h z (List.mem_cons_of_mem _ hz)).2
      have hspaced := (mark (c := ',') rfl fun _ => true).spaced hrest (by simp)
        (toList_ne_nil hne) rfl
      have hall := hx.append hspaced (by rintro c ⟨⟩; exact hcomma) (by simp)
      simp only [List.map_cons, String.intercalate_cons_cons, List.intercalate_cons_cons] at hall ⊢
      simpa using hall

theorem intercalate {α : Type} {text : α → String} {tokens : α → List String} {xs : List α}
    (h : ∀ x ∈ xs, Spells (text x).toList (tokens x) isBreak ∧ text x ≠ "") :
    Spells (", ".intercalate (xs.map text)).toList ([","].intercalate (xs.map tokens)) isBreak :=
  joined rfl h

end Spells

/-- What starts with no gap, no directive and no blank is cut alike at the start of a line. -/
theorem SpellsPieces.pieces_append (h : SpellsPieces cs (p :: ps) f) (rest : List Char)
    (hrest : ∀ c ∈ rest.head?, f c = true) (lineStart : Bool) :
    Token.pieces lineStart (cs ++ rest) = p :: ps ++ Token.pieces false rest := by
  have hpieces := h.pieces rest hrest
  cases cs with
  | nil => exact absurd rfl h.toReads.ne_nil
  | cons c cs =>
    obtain ⟨hsharp, hblank⟩ := h.head c rfl
    have hnone : Token.gapPiece? false (c :: cs ++ rest) = none :=
      h.toReads.gapPiece_eq_none (h.tight p rfl) hrest
    rw [List.cons_append] at hnone hpieces ⊢
    have hnone' := (Token.gapPiece_lineStart hsharp lineStart).trans hnone
    rw [Token.pieces_of_splitGap (Token.splitGap_of_none hnone)] at hpieces
    rw [Token.pieces_of_splitGap (Token.splitGap_of_none hnone')]
    rw [show Token.atLineStart lineStart [] = lineStart from rfl,
      Token.atLineStart_splitLexeme hblank]
    exact hpieces

theorem SpellsPieces.pieces_lineStart (h : SpellsPieces cs ps f) (lineStart : Bool) :
    Token.pieces lineStart cs = ps := by
  have hend : ∀ lineStart, Token.pieces lineStart [] = [] := fun _ =>
    Token.pieces_of_splitGap_eq_nil (by rw [Token.splitGap_of_none rfl])
  cases ps with
  | nil => rw [h.eq_nil_iff.1 rfl, hend]
  | cons p ps => simpa [hend] using h.pieces_append [] (by simp) lineStart

/-- A text starts with the tokens that it spells, whatever may follow. -/
theorem tokens_append_of_spells {text : String} (h : Spells text.toList ts f)
    (hne : text ≠ "") (rest : String) (hrest : ∀ c ∈ rest.toList.head?, f c = true) :
    Declaration.tokens (text ++ rest) =
      ts ++ (Token.pieces false rest.toList).map Piece.text := by
  obtain ⟨ps, hps, rfl⟩ := h
  have hlex : (Token.lex (text ++ rest)).map Token.piece =
      Token.pieces true (text ++ rest).toList := Token.map_piece_lexFrom _ _
  cases ps with
  | nil => exact absurd (hps.eq_nil_iff.1 rfl) (toList_ne_nil hne)
  | cons p ps =>
    rw [String.toList_append, hps.pieces_append _ hrest] at hlex
    rw [← List.map_append, ← hlex, Declaration.tokens, List.map_map]
    rfl

/-- On its own a text falls into the tokens that it spells. -/
theorem tokens_of_spells {text : String} (h : Spells text.toList ts f) :
    Declaration.tokens text = ts := by
  obtain ⟨ps, hps, rfl⟩ := h
  have hlex : (Token.lex text).map Token.piece = ps := by
    rw [Token.lex, Token.map_piece_lexFrom]
    exact hps.pieces_lineStart _
  rw [← hlex, Declaration.tokens, List.map_map]
  rfl

end HeaderReflection
