import HeaderReflection.Markup.Scan
import HeaderReflection.Proofs.Attribute.RoundTrip
import HeaderReflection.Proofs.Declaration.Levels
import HeaderReflection.Proofs.Token.Lexemes

/-!
# Attribute texts as tokens

* `spells_plain`: keys and numbers are cut into tokens of their own characters.
* `Attributes.Canonical.isArguments_render`: the text of attributes is cut into tokens that end no
  argument list before its parenthesis.
-/

namespace HeaderReflection

open Attribute (isKeyChar)
open Text (isBlank isAsciiDigit isAsciiAlphanumeric isWordChar isWordStart)

/-! ## Keys and numbers -/

/-- The character stands in keys or in numbers. -/
def isPlainChar (c : Char) : Bool :=
  isKeyChar c || c == '.' || c == '-'

/-- A character of keys and numbers is no blank, opens no comment, directive or literal, and ends
no word. -/
theorem isPlainChar_spec {c : Char} (h : isPlainChar c = true) :
    isBlank c = false ∧ c ≠ '#' ∧ c ≠ '/' ∧ c ≠ Token.doubleQuote ∧ c ≠ Token.singleQuote := by
  have hblank : isBlank c = false := by
    simp only [isPlainChar, Bool.or_eq_true, beq_iff_eq] at h
    rcases h with (h | rfl) | rfl
    · exact Attribute.isBlank_eq_false_of_isKeyChar h
    · decide
    · decide
  refine ⟨hblank, ?_, ?_, ?_, ?_⟩ <;> (rintro rfl; revert h; decide)

theorem opensLexeme_of_isPlainChar {c : Char} (h : isPlainChar c = true) :
    Token.opensLexeme c = true := by
  obtain ⟨hblank, hsharp, hslash, -, -⟩ := isPlainChar_spec h
  have hascii : Text.isAsciiBlank c = false := by
    rw [Bool.eq_false_iff]
    intro hc
    rw [Text.isBlank_of_isAsciiBlank hc] at hblank
    cases hblank
  simp [Token.opensLexeme, hascii, hsharp, hslash]

namespace Token

theorem splitWord_of_head {word rest : List Char} (h : ∀ c ∈ rest.head?, c ≠ doubleQuote) :
    splitWord word rest = (.identifier, word, rest) := by
  cases rest with
  | nil => rfl
  | cons c rest => simp [splitWord, h c rfl]

/-- A number ends where a character that ends it follows. -/
theorem splitNumber_append {previous : Char} {cs rest : List Char}
    (h : ∀ c ∈ rest.head?, isBreak c = true) :
    splitNumber previous (cs ++ rest) =
      ((splitNumber previous cs).1, (splitNumber previous cs).2 ++ rest) := by
  induction cs generalizing previous with
  | nil =>
    cases rest with
    | nil => rfl
    | cons c rest =>
      have hends := (ends_of_isBreak (h c rfl)).2.1
      have hsign : c ≠ '+' ∧ c ≠ '-' := by
        constructor <;> (rintro rfl; exact absurd (h _ rfl) (by decide))
      simp only [Reads.endsDigits, Bool.and_eq_true, Bool.not_eq_true', bne_iff_ne, ne_eq] at hends
      have hstop : ¬(isAsciiAlphanumeric c || decide (c = '.') || decide (c = singleQuote) ||
          ((decide (c = '+') || decide (c = '-')) && ['e', 'E', 'p', 'P'].contains previous)) =
          true := by
        simp [hends.1.1, hends.1.2, hends.2, hsign]
      show splitNumber previous (c :: rest) = ([], c :: rest)
      rw [splitNumber, if_neg hstop]
  | cons c cs ih =>
    rw [List.cons_append, splitNumber, splitNumber]
    split
    · simp only [ih]
    · rfl

/-- A lexeme of keys and numbers ends before the character behind them. -/
theorem splitLexeme_plain {c : Char} {cs : List Char} (hc : isPlainChar c = true)
    (hcs : ∀ d ∈ cs, isPlainChar d = true) :
    ∃ kind taken more, (∀ rest : List Char, (∀ d ∈ rest.head?, isBreak d = true) →
        splitLexeme c (cs ++ rest) = (kind, c :: taken, more ++ rest)) ∧
      cs = taken ++ more ∧ (kind = .punctuation ∨ isWordChar c = true ∨ c = '.') := by
  obtain ⟨-, -, -, hdouble, hsingle⟩ := isPlainChar_spec hc
  by_cases hstart : isWordStart c = true
  · refine ⟨.identifier, cs.takeWhile isWordChar, cs.dropWhile isWordChar, fun rest hrest => ?_,
      List.takeWhile_append_dropWhile.symm, .inr (.inl (Text.isWordChar_of_isWordStart hstart))⟩
    have hword : ∀ d ∈ rest.head?, isWordChar d = false := by
      intro d hd
      have hends := (ends_of_isBreak (hrest d hd)).1
      simp only [Reads.endsWord, Bool.and_eq_true, Bool.not_eq_true'] at hends
      exact hends.1
    have hquote : ∀ d ∈ (cs.dropWhile isWordChar ++ rest).head?, d ≠ doubleQuote := by
      intro d hd
      cases hdrop : cs.dropWhile isWordChar with
      | nil =>
        rw [hdrop] at hd
        rintro rfl
        exact absurd (hrest _ hd) (by decide)
      | cons e es =>
        rw [hdrop] at hd
        obtain rfl := Option.some.inj hd
        have hmem : e ∈ cs := (List.dropWhile_suffix isWordChar).subset
          (hdrop ▸ List.mem_cons_self)
        exact (isPlainChar_spec (hcs e hmem)).2.2.2.1
    rw [splitLexeme, if_pos hstart, Text.takeWhile_append_stop hword,
      Text.dropWhile_append_stop hword, splitWord_of_head hquote]
  have hhead : ∀ rest : List Char, (∀ d ∈ rest.head?, isBreak d = true) →
      (cs ++ rest).head?.any isAsciiDigit = cs.head?.any isAsciiDigit ∧
        decide ((cs ++ rest).head? = some ':') = decide (cs.head? = some ':') := by
    intro rest hrest
    cases cs with
    | cons d cs => exact ⟨rfl, rfl⟩
    | nil =>
      cases rest with
      | nil => exact ⟨rfl, rfl⟩
      | cons d rest =>
        obtain ⟨-, hdigit, hcolon⟩ := ends_of_isBreak (hrest d rfl)
        simp only [Reads.endsDigits, isAsciiAlphanumeric, Bool.and_eq_true, Bool.not_eq_true',
          Bool.or_eq_false_iff] at hdigit
        simp [hdigit, hcolon]
  by_cases hnumber : (isAsciiDigit c || (decide (c = '.') && cs.head?.any isAsciiDigit)) = true
  · refine ⟨.number, (splitNumber c cs).1, (splitNumber c cs).2, fun rest hrest => ?_,
      (append_splitNumber c cs).symm, .inr ?_⟩
    · rw [splitLexeme, if_neg hstart, (hhead rest hrest).1, if_pos hnumber]
      dsimp only
      rw [splitNumber_append hrest]
    · simp only [Bool.or_eq_true, Bool.and_eq_true, decide_eq_true_eq] at hnumber
      rcases hnumber with hdigit | ⟨hpoint, -⟩
      · exact .inl (by simp [isWordChar, Text.isAlphanumeric_of_isAsciiDigit hdigit])
      · exact .inr hpoint
  have hlexeme : ∀ rest : List Char, (∀ d ∈ rest.head?, isBreak d = true) →
      splitLexeme c (cs ++ rest) =
        if c = ':' ∧ cs.head? = some ':' then (.punctuation, [c, ':'], (cs ++ rest).tail)
        else (.punctuation, [c], cs ++ rest) := by
    intro rest hrest
    rw [splitLexeme, if_neg hstart, (hhead rest hrest).1, if_neg hnumber, (hhead rest hrest).2]
    simp [hdouble, hsingle]
  by_cases hscope : c = ':' ∧ cs.head? = some ':'
  · obtain ⟨cs, rfl⟩ : ∃ tail, cs = ':' :: tail := List.head?_eq_some_iff.1 hscope.2
    exact ⟨.punctuation, [':'], cs, fun rest hrest => (hlexeme rest hrest).trans (if_pos hscope),
      rfl, .inl rfl⟩
  · exact ⟨.punctuation, [], cs, fun rest hrest => (hlexeme rest hrest).trans (if_neg hscope),
      rfl, .inl rfl⟩

end Token

/-- Keys and numbers are cut into tokens of their own characters. -/
theorem spells_plain {cs : List Char} (h : ∀ c ∈ cs, isPlainChar c = true) :
    ∃ ts, Spells cs ts isBreak ∧ ∀ t ∈ ts, ∀ c ∈ t.toList, c ∈ cs := by
  induction hn : cs.length using Nat.strong_induction_on generalizing cs with
  | _ n ih =>
    cases cs with
    | nil => exact ⟨[], .nil _, by simp⟩
    | cons c cs =>
      have hc := h c List.mem_cons_self
      have hcs := fun d hd => h d (List.mem_cons_of_mem c hd)
      obtain ⟨kind, taken, more, hlex, rfl, hkind⟩ := Token.splitLexeme_plain hc hcs
      obtain ⟨ts, ⟨ps, hps, rfl⟩, hchars⟩ := ih more.length
        (by simp only [List.length_cons, List.length_append] at hn; omega)
        (fun d hd => hcs d (List.mem_append_right _ hd)) rfl
      have hproper : Piece.Proper ⟨"", kind, String.ofList (c :: taken)⟩ := by
        intro hdelimiter
        have hnone : ∀ s ∈ delimiters, ∀ d ∈ s.toList.head?, isWordChar d = false ∧ d ≠ '.' := by
          decide
        obtain ⟨hword, hpoint⟩ := hnone _ hdelimiter c (by rw [String.toList_ofList]; rfl)
        rcases hkind with h | h | h
        · exact h
        · rw [hword] at h
          cases h
        · exact absurd h hpoint
      have hblank : ∀ d ∈ c :: taken, isBlank d = false := by
        intro d hd
        refine (isPlainChar_spec (h d ?_)).1
        rw [← List.cons_append]
        exact List.mem_append_left _ hd
      refine ⟨_, ⟨_, hps.cons (opensLexeme_of_isPlainChar hc) hlex hproper hblank, rfl⟩, ?_⟩
      rw [List.map_cons, List.forall_mem_cons]
      refine ⟨fun d hd => ?_, fun t ht d hd => ?_⟩
      · rw [String.toList_ofList] at hd
        rw [← List.cons_append]
        exact List.mem_append_left _ hd
      · exact List.mem_cons_of_mem _ (List.mem_append_right _ (hchars t ht d hd))

/-! ## Text values -/

theorem splitQuoted_escapeQuoted {cs : List Char} (h : '\n' ∉ cs) (rest : List Char) :
    Token.splitQuoted '\x22' (escapeQuoted cs ++ '\x22' :: rest) =
      (escapeQuoted cs ++ ['\x22'], rest) := by
  induction cs with
  | nil => rfl
  | cons c cs ih =>
    simp only [List.mem_cons, not_or] at h
    have htail := ih h.2
    rw [escapeQuoted]
    split
    · simp only [List.cons_append, Token.splitQuoted, htail]
    · rename_i hc
      simp only [Bool.or_eq_true, decide_eq_true_eq, not_or] at hc
      rw [List.cons_append, Token.splitQuoted_cons hc.1, if_neg (Ne.symm h.1), if_neg hc.2, htail]
      rfl

/-- A text value on one line is one token. -/
theorem spells_quoted {s : String} (h : '\n' ∉ s.toList) (f : Char → Bool) :
    Spells ('\x22' :: (escapeQuoted s.toList ++ ['\x22']))
      [String.ofList ('\x22' :: (escapeQuoted s.toList ++ ['\x22']))] f := by
  have hlast : ('\x22' :: (escapeQuoted s.toList ++ ['\x22'])).getLast? = some '\x22' := by
    rw [← List.cons_append, List.getLast?_concat]
  have hread : Reads ('\x22' :: (escapeQuoted s.toList ++ ['\x22']))
      [⟨"", .string, String.ofList ('\x22' :: (escapeQuoted s.toList ++ ['\x22']))⟩] f := by
    refine .lexeme (fun rest _ => Token.gapPiece_of_opensLexeme (by decide) false _)
      (fun rest _ => ?_) (Token.atLineStart_of_getLast (c := '\x22') hlast (by decide) false)
    have hquoted := splitQuoted_escapeQuoted h rest
    have hsplit : Token.splitLexeme '\x22' (escapeQuoted s.toList ++ '\x22' :: rest) =
        (.string, '\x22' :: (Token.splitQuoted '\x22' (escapeQuoted s.toList ++ '\x22' :: rest)).1,
          (Token.splitQuoted '\x22' (escapeQuoted s.toList ++ '\x22' :: rest)).2) := rfl
    rw [List.append_assoc, List.singleton_append, hsplit, hquoted]
  have hproper : Piece.Proper
      ⟨"", .string, String.ofList ('\x22' :: (escapeQuoted s.toList ++ ['\x22']))⟩ := by
    intro hm
    have hnone : ∀ t ∈ delimiters, t.toList.head? ≠ some '\x22' := by decide
    exact absurd (by rw [String.toList_ofList]; rfl) (hnone _ hm)
  refine ⟨_, ⟨hread, by simpa using hproper, by simp, ?_, ?_⟩, rfl⟩
  · rintro c ⟨⟩
    decide
  · rw [hlast]
    rintro c ⟨⟩
    decide

/-! ## Argument lists -/

/-- The level of parentheses that a token opens. -/
def parenDepth (t : String) : Int :=
  if t = "(" then 1 else if t = ")" then -1 else 0

/-- The token breaks an argument list off: it is a semicolon, a curly bracket or a marker. -/
def Breaks (t : String) : Prop :=
  t ∈ [";", "\x7b", "\x7d"] ∨ t ∈ Vocabulary.words {}

instance : DecidablePred Breaks :=
  fun _ => inferInstanceAs (Decidable (_ ∨ _))

/-- The text is cut into tokens with closed parentheses, none of which breaks an argument list
off. -/
def IsArguments (cs : List Char) : Prop :=
  ∃ ts, Spells cs ts isBreak ∧ Leads parenDepth (fun _ => False) 0 ts 0 ∧ ∀ t ∈ ts, ¬Breaks t

namespace IsArguments

variable {cs ds : List Char}

theorem nil : IsArguments [] :=
  ⟨[], .nil _, rfl, by simp⟩

theorem append (h : IsArguments cs) (h' : IsArguments ds)
    (hhead : ∀ c ∈ ds.head?, isBreak c = true) : IsArguments (cs ++ ds) := by
  obtain ⟨ts, hts, hleads, hkeeps⟩ := h
  obtain ⟨us, hus, hleads', hkeeps'⟩ := h'
  refine ⟨ts ++ us, hts.append hus hhead fun _ _ hc => hc, hleads.append hleads', ?_⟩
  exact fun t ht => (List.mem_append.1 ht).elim (hkeeps t) (hkeeps' t)

/-- Arguments in parentheses. -/
theorem group (h : IsArguments cs) : IsArguments ('(' :: (cs ++ [')'])) := by
  obtain ⟨ts, hts, hleads, hkeeps⟩ := h
  have hinner := hts.append (.mark (c := ')') rfl isBreak) (by rintro c ⟨⟩; rfl) (by simp)
  have hall := (Spells.mark (c := '(') rfl fun _ => true).append hinner (by simp) (by simp)
  refine ⟨"(" :: (ts ++ [")"]), hall, .group rfl id rfl hleads, ?_⟩
  simp only [List.mem_cons, List.mem_append, List.not_mem_nil, or_false]
  rintro t (rfl | ht | rfl)
  · decide
  · exact hkeeps t ht
  · decide

/-- Arguments behind a comma. -/
theorem comma (h : IsArguments cs) (hne : cs ≠ []) : IsArguments (',' :: ' ' :: cs) := by
  obtain ⟨ts, hts, hleads, hkeeps⟩ := h
  have hall := (Spells.mark (c := ',') rfl fun _ => true).spaced hts (by simp) hne rfl
  have hcomma : Leads parenDepth (fun _ => False) 0 [","] 0 := .plain (Int.le_refl 0) (by decide)
  refine ⟨"," :: ts, hall, hcomma.append hleads, ?_⟩
  rw [List.forall_mem_cons]
  exact ⟨by decide, hkeeps⟩

/-- Keys and numbers without markers. -/
theorem plain (h : ∀ c ∈ cs, isPlainChar c = true)
    (hmarker : ∀ ts, Spells cs ts isBreak → (∀ t ∈ ts, ∀ c ∈ t.toList, c ∈ cs) →
      ∀ t ∈ ts, t ∉ Vocabulary.words {}) : IsArguments cs := by
  obtain ⟨ts, hts, hchars⟩ := spells_plain h
  have hmark : ∀ t ∈ ts, ∀ m ∈ ["(", ")", ";", "\x7b", "\x7d"], t ≠ m := by
    rintro t ht m hm rfl
    have hall : ∀ s ∈ ["(", ")", ";", "\x7b", "\x7d"], ∃ c ∈ s.toList, isPlainChar c = false := by
      decide
    obtain ⟨c, hc, hplain⟩ := hall t hm
    rw [h c (hchars t ht c hc)] at hplain
    cases hplain
  refine ⟨ts, hts, .plain (Int.le_refl 0) fun t ht => ⟨?_, id⟩, fun t ht hbreaks => ?_⟩
  · simp [parenDepth, hmark t ht "(" (by decide), hmark t ht ")" (by decide)]
  · have hall : ∀ m ∈ [";", "\x7b", "\x7d"], m ∈ ["(", ")", ";", "\x7b", "\x7d"] := by decide
    rcases hbreaks with hm | hm
    · exact hmark t ht t (hall t hm) rfl
    · exact hmarker ts hts hchars t ht hm

end IsArguments

/-! ## Attributes -/

/-- The key holds no marker word. -/
def IsUnmarked (key : String) : Prop :=
  ∀ t ∈ Declaration.tokens key, t ∉ Vocabulary.words {}

/-- The text of the value stays on its line and holds no marker word. -/
inductive AttributeValue.Inline : AttributeValue → Prop
  | text {s : String} (line : '\n' ∉ s.toList) : Inline (.text s)
  | number (x : Number) : Inline (.number x)
  | flag (b : Bool) : Inline (.flag b)
  | nested {m : Attributes} (unmarked : ∀ e ∈ m, IsUnmarked e.1) (values : ∀ e ∈ m, Inline e.2) :
      Inline (.nested m)

/-- Attributes whose text between the parentheses of a marker is read as the attributes. -/
structure Attributes.Canonical (m : Attributes) : Prop where
  readable : m.Readable
  reread : m.reread = m
  unmarked : ∀ e ∈ m, IsUnmarked e.1
  inline : ∀ e ∈ m, e.2.Inline

theorem isArguments_key {key : String} (hkey : IsKey key) (h : IsUnmarked key) :
    IsArguments key.toList := by
  refine .plain (fun c hc => by simp [isPlainChar, hkey.2 c hc]) fun ts hts _ => ?_
  rw [← tokens_of_spells hts]
  exact h

theorem isArguments_number {x : Number} (hx : x.isFinite = true) : IsArguments x.plainChars := by
  have hchar := fun c hc => Number.mem_plainChars hx (c := c) hc
  refine .plain (fun c hc => ?_) fun ts _ hchars t ht hm => ?_
  · rcases hchar c hc with h | rfl | rfl
    · simp [isPlainChar, isKeyChar, Text.isAlphanumeric_of_isAsciiDigit h]
    · decide
    · decide
  · have hall : ∀ s ∈ Vocabulary.words {}, ∃ c ∈ s.toList,
        isAsciiDigit c = false ∧ c ≠ '.' ∧ c ≠ '-' := by decide
    obtain ⟨c, hc, hdigit, hpoint, hsign⟩ := hall t hm
    rcases hchar c (hchars t ht c hc) with h | h | h
    · rw [hdigit] at h
      cases h
    · exact hpoint h
    · exact hsign h

theorem isArguments_quoted {s : String} (h : '\n' ∉ s.toList) :
    IsArguments ('\x22' :: (escapeQuoted s.toList ++ ['\x22'])) := by
  have hhead : ∀ m, m.toList.head? ≠ some '\x22' →
      String.ofList ('\x22' :: (escapeQuoted s.toList ++ ['\x22'])) ≠ m := by
    rintro m hm rfl
    exact hm (by rw [String.toList_ofList]; rfl)
  refine ⟨_, spells_quoted h isBreak, .plain (Int.le_refl 0) ?_, ?_⟩
  · rw [List.forall_mem_singleton]
    rw [parenDepth, if_neg (hhead "(" (by decide)), if_neg (hhead ")" (by decide))]
    exact ⟨rfl, id⟩
  · rw [List.forall_mem_singleton]
    have hnone : ∀ t ∈ [";", "\x7b", "\x7d"] ++ Vocabulary.words {},
        t.toList.head? ≠ some '\x22' := by decide
    exact fun hbreaks => hhead _ (hnone _ (List.mem_append.2 hbreaks)) rfl

theorem head_renderRest (m : Attributes) :
    ∀ c ∈ (AttributeValue.renderRest m).head?, isBreak c = true := by
  cases m with
  | nil => simp [AttributeValue.renderRest]
  | cons e m =>
    rw [Attribute.renderRest_cons]
    rintro c ⟨⟩
    rfl

theorem head_renderChars (value : AttributeValue) (m : Attributes) :
    ∀ c ∈ (value.renderChars ++ AttributeValue.renderRest m).head?, isBreak c = true := by
  rcases Attribute.renderChars_cases value with ⟨rfl, hv⟩ | ⟨-, inner, hv⟩
  · rw [hv]
    exact head_renderRest m
  · rw [hv]
    rintro c ⟨⟩
    rfl

/-- The text of a list is cut into arguments if the texts of its values are. -/
theorem isArguments_renderList {m : Attributes} (hkey : ∀ e ∈ m, IsKey e.1)
    (hunmarked : ∀ e ∈ m, IsUnmarked e.1) (h : ∀ e ∈ m, IsArguments e.2.renderChars) :
    IsArguments (AttributeValue.renderList m) := by
  induction m with
  | nil => exact .nil
  | cons e m ih =>
    have hrest := ih (fun d hd => hkey d (List.mem_cons_of_mem _ hd))
      (fun d hd => hunmarked d (List.mem_cons_of_mem _ hd))
      fun d hd => h d (List.mem_cons_of_mem _ hd)
    have hmore : IsArguments (AttributeValue.renderRest m) := by
      cases m with
      | nil => exact .nil
      | cons d m =>
        have hd := (hkey d (List.mem_cons_of_mem _ List.mem_cons_self)).1
        rw [Attribute.renderRest_cons]
        refine hrest.comma fun hnil => ?_
        simp only [AttributeValue.renderList, List.append_eq_nil_iff] at hnil
        exact hd hnil.1.1
    have hvalue := (h e List.mem_cons_self).append hmore (head_renderRest m)
    have hall := (isArguments_key (hkey e List.mem_cons_self)
      (hunmarked e List.mem_cons_self)).append hvalue (head_renderChars e.2 m)
    rwa [← List.append_assoc] at hall

theorem AttributeValue.Inline.isArguments_renderChars {value : AttributeValue}
    (h : value.Inline) (hread : value.Readable) : IsArguments value.renderChars := by
  induction h with
  | text line =>
    have hgroup := (isArguments_quoted line).group
    rw [AttributeValue.renderChars]
    simpa using hgroup
  | number x =>
    cases hread with
    | number finite => exact (isArguments_number finite).group
  | flag b =>
    cases b with
    | true => exact .nil
    | false =>
      have hword : IsArguments "false".toList :=
        isArguments_key (by unfold IsKey; decide) (by unfold IsUnmarked; decide +kernel)
      exact hword.group
  | nested unmarked _ ih =>
    have hm := Attributes.readable_of_nested hread
    exact (isArguments_renderList hm.isKey unmarked fun e he => ih e he (hm.values e he)).group

/-- The text of canonical attributes is cut into tokens that end no argument list before its
parenthesis. -/
theorem Attributes.Canonical.isArguments_render {m : Attributes} (h : m.Canonical) :
    IsArguments m.render.toList := by
  rw [Attributes.render, String.toList_ofList]
  exact isArguments_renderList h.readable.isKey h.unmarked fun e he =>
    (h.inline e he).isArguments_renderChars (h.readable.values e he)

/-- Canonical attributes are read off their text. -/
theorem Attributes.Canonical.parse_text {m : Attributes} (h : m.Canonical)
    (origin : Text.Position) : Attributes.parse m.render origin = .ok m := by
  rw [Attributes.parse_render h.readable, h.reread]

end HeaderReflection
