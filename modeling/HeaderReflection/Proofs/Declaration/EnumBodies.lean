import HeaderReflection.Proofs.Declaration.Enumerators
import HeaderReflection.Proofs.Token.Spacing

/-!
# Enum bodies with free spacing

The entries of an enum's body are read whatever blanks stand around them. Blanks are what the lexer
passes over between tokens; other white space is a token like any other mark.

* `isInitializer_words`: tokens with spaces between them are the text of a value.
* `Spaced.Plain.exists_pieces`: an enumerator is cut alike between any blanks.
* `parseAll_spaced`: the enumerators of a body, with any blanks around them.
-/

namespace HeaderReflection

open Declaration
open Token (IsToken Spelled endsEntry pieces)
open Text (isAsciiBlank isBlank)

/-- The text of a value: tokens from its first character to its last, which are no white space. All
round, square and curly brackets are closed in it, and no comma stands outside them. -/
structure IsInitializer (value : String) : Prop where
  ne_empty : value ≠ ""
  head : ∀ c ∈ value.toList.head?, isBlank c = false
  last : ∀ c ∈ value.toList.getLast?, isBlank c = false
  spelled : Spelled false value.toList
  closed : Leads enumDepth (· = ",") 0
    ((pieces false (value.toList ++ [' '])).map Piece.text) 0

/-- Tokens with spaces between them are the text of a value. -/
theorem isInitializer_words {ws : List String} (hne : ws ≠ []) (h : ∀ w ∈ ws, IsToken w)
    (hclosed : Leads enumDepth (· = ",") 0 ws 0)
    (hhead : ∀ c ∈ (" ".intercalate ws).toList.head?, isBlank c = false)
    (hlast : ∀ c ∈ (" ".intercalate ws).toList.getLast?, isBlank c = false) :
    IsInitializer (" ".intercalate ws) := by
  obtain ⟨hspelled, htexts⟩ := Token.spelled_words hne h
  refine ⟨intercalate_ne_empty hne fun w hw => ?_, hhead, hlast, hspelled, ?_⟩
  · rintro rfl
    exact (h "" hw).ne_nil rfl
  · rwa [htexts]

theorem IsInitializer.pieces_ne_nil {value : String} (h : IsInitializer value) :
    pieces false (value.toList ++ [' ']) ≠ [] := by
  intro hnil
  have hspelled := h.spelled
  rw [Spelled, hnil] at hspelled
  exact toList_ne_nil h.ne_empty hspelled.symm

/-! ## One enumerator -/

namespace Enumerator

/-- The name is an identifier, and the value, if there is one, is the text of a value. -/
structure Initialized (e : Enumerator) : Prop where
  name : IsIdentifier e.name
  value : ∀ v ∈ e.value, IsInitializer v

/-- The pieces of an enumerator. -/
def pieces (e : Enumerator) : List Piece :=
  ⟨"", .identifier, e.name⟩ ::
    match e.value with
    | none => []
    | some v => ⟨" ", .punctuation, "="⟩ ::
      (Token.pieces false (v.toList ++ [' '])).modifyHead (Piece.indent " ")

variable {e : Enumerator}

/-- Before a space an enumerator is cut into its pieces. -/
theorem Initialized.pieces_space (h : e.Initialized) (before : Bool) :
    Token.pieces before (e.text.toList ++ [' ']) = e.pieces := by
  obtain ⟨name, value⟩ := e
  cases value with
  | none =>
    have hends : ∀ c ∈ [' '].head?, Reads.endsWord c = true := by decide
    have hname := Token.pieces_word h.name hends before
    rw [Token.pieces_of_blanks Token.isAsciiBlank_space] at hname
    simpa [text, pieces] using hname
  | some v =>
    have hends : ∀ c ∈ (' ' :: '=' :: ' ' :: (v.toList ++ [' '])).head?,
        Reads.endsWord c = true := by
      rintro c ⟨⟩
      decide
    have hname := Token.pieces_word h.name hends before
    rw [Token.pieces_space, Token.pieces_mark (c := '=') rfl, Token.pieces_space] at hname
    simpa [text, pieces, Piece.indent] using hname

theorem Initialized.spelled (h : e.Initialized) (before : Bool) :
    Spelled before e.text.toList := by
  rw [Spelled, h.pieces_space]
  obtain ⟨name, value⟩ := e
  cases value with
  | none => simp [pieces, text]
  | some v =>
    have hv := h.value v rfl
    have hspelled := hv.spelled
    rw [Spelled] at hspelled
    simp [pieces, text, Piece.spell_indent hv.pieces_ne_nil, hspelled]

/-- Outside brackets an enumerator has no comma, and it closes all that it opens. -/
theorem Initialized.leads_pieces (h : e.Initialized) :
    Leads enumDepth (· = ",") 0 (e.pieces.map Piece.text) 0 := by
  obtain ⟨name, value⟩ := e
  have hname := (leads_entryName h.name).1
  cases value with
  | none => exact hname
  | some v =>
    have hequals : Leads enumDepth (· = ",") 0 ["="] 0 := .plain (Int.le_refl 0) (by decide)
    have hall := hname.append (hequals.append (h.value v rfl).closed)
    rwa [pieces, List.map_cons, List.map_cons, Piece.map_text_indent]

/-- An enumerator is read off its pieces, whatever gap stands before them. -/
theorem Initialized.enumeratorOf (h : e.Initialized) {gap : String} {ts : List Token}
    (hts : ts.map Token.piece = e.pieces.modifyHead (Piece.indent gap)) :
    enumeratorOf? ts = some e := by
  obtain ⟨name, value⟩ := e
  cases value with
  | none => exact enumeratorOf_name hts
  | some v =>
    have hv := h.value v rfl
    refine enumeratorOf_value hts ?_ hv.ne_empty hv.head hv.last
    rw [Piece.spell_indent hv.pieces_ne_nil, hv.spelled]
    rfl

/-! ## Bodies -/

/-- An enumerator with what stands around it in a body. -/
structure Spaced where
  before : String
  enumerator : Enumerator
  after : String

/-- The text of an enumerator and of what stands around it. -/
def Spaced.text (x : Spaced) : String :=
  x.before ++ x.enumerator.text ++ x.after

/-- The enumerator is initialized, and blanks stand around it. -/
structure Spaced.Plain (x : Spaced) : Prop where
  enumerator : x.enumerator.Initialized
  before : ∀ c ∈ x.before.toList, isAsciiBlank c = true
  after : ∀ c ∈ x.after.toList, isAsciiBlank c = true

/-- The text of a body: its entries with commas between them, perhaps one more comma, and what
stands before the closing brace. -/
def bodyText (xs : List Spaced) (comma : Bool) (ending : String) : String :=
  ",".intercalate (xs.map Spaced.text) ++ (if comma then "," else "") ++ ending

variable {x : Spaced} {rest : List Char}

theorem endsEntry_of_blanks {bs : List Char} (h : ∀ b ∈ bs, isAsciiBlank b = true) :
    ∀ d ∈ bs.head?, endsEntry d = true :=
  fun d hd => by simp [endsEntry, h d (List.mem_of_mem_head? hd)]

/-- The blanks around an enumerator belong to its own gap and to the one behind it. -/
theorem Spaced.Plain.exists_pieces (h : x.Plain) (before : Bool)
    (hrest : ∀ d ∈ rest.head?, endsEntry d = true) :
    ∃ lineStart, Token.pieces before (x.text.toList ++ rest) =
      x.enumerator.pieces.modifyHead (Piece.indent x.before) ++
        (Token.pieces lineStart rest).modifyHead (Piece.indent x.after) := by
  have hafter : ∀ d ∈ (x.after.toList ++ rest).head?, endsEntry d = true := by
    cases hx : x.after.toList with
    | nil => exact hrest
    | cons b bs =>
      have hblanks : ∀ c ∈ b :: bs, isAsciiBlank c = true := hx ▸ h.after
      have hends := endsEntry_of_blanks hblanks
      exact hends
  refine ⟨Token.atLineStart (Token.atLineStart (Token.atLineStart before x.before.toList)
    x.enumerator.text.toList) x.after.toList, ?_⟩
  rw [Spaced.text, String.toList_append, String.toList_append, List.append_assoc,
    List.append_assoc, Token.pieces_blanks h.before,
    Token.pieces_append (h.enumerator.spelled _) hafter, h.enumerator.pieces_space,
    Token.pieces_blanks h.after, String.ofList_toList, String.ofList_toList]
  rfl

/-- The last enumerator of a body, with only blanks behind it. -/
theorem Spaced.Plain.read_last (h : x.Plain) (before : Bool)
    (hrest : ∀ b ∈ rest, isAsciiBlank b = true) {ts : List Token}
    (hts : ts.map Token.piece = Token.pieces before (x.text.toList ++ rest)) :
    (splitEntries 0 ts).filterMap enumeratorOf? = [x.enumerator] := by
  obtain ⟨lineStart, hpieces⟩ := h.exists_pieces before (endsEntry_of_blanks hrest)
  rw [hpieces, Token.pieces_of_blanks hrest, List.modifyHead_nil, List.append_nil] at hts
  rw [splitEntries_last hts (by rw [Piece.map_text_indent]; exact h.enumerator.leads_pieces)]
  simp [h.enumerator.enumeratorOf hts]

/-- An enumerator of a body that a comma ends. -/
theorem Spaced.Plain.read_comma (h : x.Plain) (before : Bool) {ts : List Token}
    (hts : ts.map Token.piece = Token.pieces before (x.text.toList ++ ',' :: rest)) :
    ∃ us, us.map Token.piece = Token.pieces false rest ∧
      (splitEntries 0 ts).filterMap enumeratorOf? =
        x.enumerator :: (splitEntries 0 us).filterMap enumeratorOf? := by
  have hends : ∀ d ∈ (',' :: rest).head?, endsEntry d = true := by
    rintro d ⟨⟩
    rfl
  obtain ⟨lineStart, hpieces⟩ := h.exists_pieces before hends
  rw [hpieces, Token.pieces_mark (c := ',') rfl, List.modifyHead_cons] at hts
  obtain ⟨entry, us, hentry, hus, hsplit⟩ := exists_splitEntries_comma hts
    (by rw [Piece.map_text_indent]; exact h.enumerator.leads_pieces)
  refine ⟨us, hus, ?_⟩
  rw [hsplit, List.filterMap_cons, h.enumerator.enumeratorOf hentry]

theorem read_blanks (before : Bool) (hrest : ∀ b ∈ rest, isAsciiBlank b = true) {ts : List Token}
    (hts : ts.map Token.piece = Token.pieces before rest) :
    (splitEntries 0 ts).filterMap enumeratorOf? = [] := by
  rw [Token.pieces_of_blanks hrest, List.map_eq_nil_iff] at hts
  rw [hts]
  rfl

theorem toList_bodyText_cons (x : Spaced) (xs : List Spaced) (comma : Bool) (ending : String) :
    (bodyText (x :: xs) comma ending).toList = x.text.toList ++
      (if xs = [] ∧ comma = false then ending.toList
        else ',' :: (bodyText xs (comma && xs ≠ []) ending).toList) := by
  cases xs <;> cases comma <;> simp [bodyText, String.intercalate_cons_cons]

/-- The enumerators of a body, whatever stands before it on its line. -/
theorem read_bodyText {xs : List Spaced} (h : ∀ x ∈ xs, x.Plain) (comma : Bool) {ending : String}
    (hending : ∀ c ∈ ending.toList, isAsciiBlank c = true) (before : Bool) {ts : List Token}
    (hts : ts.map Token.piece = Token.pieces before (bodyText xs comma ending).toList) :
    (splitEntries 0 ts).filterMap enumeratorOf? = xs.map Spaced.enumerator := by
  induction xs generalizing comma before ts with
  | nil =>
    cases comma with
    | false => exact read_blanks before hending (by simpa [bodyText] using hts)
    | true =>
      have hcomma : ts.map Token.piece = Token.pieces before (',' :: ending.toList) := by
        simpa [bodyText] using hts
      rw [Token.pieces_mark (c := ',') rfl] at hcomma
      have hnone : Leads enumDepth (· = ",") 0 (([] : List Piece).map Piece.text) 0 := rfl
      obtain ⟨us, vs, hus, hvs, hsplit⟩ := exists_splitEntries_comma (by exact hcomma) hnone
      rw [hsplit, List.map_eq_nil_iff.1 hus, List.filterMap_cons]
      exact read_blanks false hending hvs
  | cons x xs ih =>
    obtain ⟨hx, hxs⟩ := List.forall_mem_cons.1 h
    rw [toList_bodyText_cons] at hts
    split at hts
    · rename_i hlast
      rw [hx.read_last before hending hts, hlast.1]
      rfl
    · obtain ⟨us, hus, hread⟩ := hx.read_comma before hts
      rw [hread, ih hxs _ false hus]
      rfl

/-- The enumerators of a body are read off it, whatever blanks stand around them and whether or not
a comma stands behind the last one. Tokens with spaces between them, in which all brackets but angle
brackets are closed and outside of which no comma stands, are the text of a value, if they start and
end with no white space. -/
theorem parseAll_spaced {xs : List Spaced} (h : ∀ x ∈ xs, x.Plain) (comma : Bool) {ending : String}
    (hending : ∀ c ∈ ending.toList, isAsciiBlank c = true) :
    Enumerator.parseAll (bodyText xs comma ending) = xs.map Spaced.enumerator ∧
      ∀ ws : List String, ws ≠ [] → (∀ w ∈ ws, IsToken w) → Leads enumDepth (· = ",") 0 ws 0 →
        (∀ c ∈ (" ".intercalate ws).toList.head?, isBlank c = false) →
        (∀ c ∈ (" ".intercalate ws).toList.getLast?, isBlank c = false) →
        IsInitializer (" ".intercalate ws) :=
  ⟨read_bodyText h comma hending true (Token.map_piece_lexFrom _ _),
    fun _ hne hws hclosed hhead hlast => isInitializer_words hne hws hclosed hhead hlast⟩

theorem parseAll_spaced_shift :
    Enumerator.parseAll " Red,\tGreen = 4\n,Blue = Green << 1, " =
        [⟨"Red", none⟩, ⟨"Green", some "4"⟩, ⟨"Blue", some "Green << 1"⟩] ∧
      IsInitializer "( a , b ) < \u00a0 = 1" := by
  have hfour : IsInitializer "4" :=
    ⟨by decide, by decide, by decide, by unfold Spelled; decide +kernel, by decide +kernel⟩
  have hshift : IsInitializer "Green << 1" :=
    ⟨by decide, by decide, by decide, by unfold Spelled; decide +kernel, by decide +kernel⟩
  have hplain : ∀ x ∈ [⟨" ", ⟨"Red", none⟩, ""⟩, ⟨"\t", ⟨"Green", some "4"⟩, "\n"⟩,
      ⟨"", ⟨"Blue", some "Green << 1"⟩, ""⟩], Spaced.Plain x := by
    simp only [List.forall_mem_cons]
    refine ⟨⟨⟨by decide, by simp⟩, by decide, by decide⟩,
      ⟨⟨by decide, by simpa using hfour⟩, by decide, by decide⟩,
      ⟨⟨by decide, by simpa using hshift⟩, by decide, by decide⟩, by simp⟩
  have hending : ∀ c ∈ " ".toList, isAsciiBlank c = true := by decide
  have hread := parseAll_spaced hplain true hending
  refine ⟨hread.1, hread.2 ["(", "a", ",", "b", ")", "<", "\u00a0", "=", "1"] (by simp) ?_
    (by decide) (by decide) (by decide)⟩
  simp only [List.forall_mem_cons]
  refine ⟨⟨.punctuation, ?_⟩, ⟨.identifier, ?_⟩, ⟨.punctuation, ?_⟩, ⟨.identifier, ?_⟩,
    ⟨.punctuation, ?_⟩, ⟨.punctuation, ?_⟩, ⟨.punctuation, ?_⟩, ⟨.punctuation, ?_⟩,
    ⟨.number, ?_⟩, by simp⟩ <;> decide +kernel

/-- White space that is no blank to the lexer is a token: it hides the name behind it, and no value
is left of it when its ends are trimmed. -/
theorem parseAll_white_space :
    (isBlank '\x0b' = true ∧ IsIdentifier "A" ∧ IsIdentifier "B" ∧
      Enumerator.parseAll "A,\x0bB" ≠ [⟨"A", none⟩, ⟨"B", none⟩]) ∧
    (IsToken "\u00a0" ∧ Leads enumDepth (· = ",") 0 ["\u00a0"] 0 ∧
      Enumerator.parseAll "A = \u00a0" ≠ [⟨"A", some "\u00a0"⟩]) := by
  refine ⟨⟨by decide, by decide, by decide, ?_⟩, ⟨.punctuation, ?_⟩, by decide, ?_⟩ <;>
    decide +kernel

end Enumerator

end HeaderReflection
