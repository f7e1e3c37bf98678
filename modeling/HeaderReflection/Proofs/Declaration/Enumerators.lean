import HeaderReflection.Proofs.Declaration.Types
import HeaderReflection.Proofs.Token.Lexemes

/-!
# Enumerators read back

* `reads_joined`: the text of enumerators is cut into the pieces of its entries.
* `parseAll_text`: canonical enumerators are read off their text.
-/

namespace HeaderReflection

open Declaration
open Token (isComplete endsLexeme)
open Text (isBlank)

/-- The levels of curly brackets that a token opens. -/
def braceDepth (t : String) : Int :=
  if t = "\x7b" then 1 else if t = "\x7d" then -1 else 0

/-- The value of an enumerator: complete lexemes with spaces between them, in which all brackets
are closed and no comma stands outside brackets. -/
def IsValue (value : String) : Prop :=
  ∃ ws : List String, ws ≠ [] ∧ (∀ w ∈ ws, isComplete w = true) ∧
    Leads enumDepth (· = ",") 0 ws 0 ∧ Leads braceDepth (fun _ => False) 0 ws 0 ∧
    value = " ".intercalate ws

namespace Enumerator

/-- An enumerator whose text is read as the enumerator. -/
structure Canonical (e : Enumerator) : Prop where
  name : IsIdentifier e.name
  value : ∀ v ∈ e.value, IsValue v

/-- The text of an enumerator. -/
def text (e : Enumerator) : String :=
  e.name ++
    (match e.value with
      | none => ""
      | some v => " = " ++ v)

end Enumerator

/-! ## Values -/

/-- The pieces of a value behind an equals sign. -/
structure ValuePieces (value : String) (ps : List Piece) : Prop where
  spell : Piece.spell ps = ' ' :: value.toList
  proper : ∀ p ∈ ps, p.Proper
  commas : Leads enumDepth (· = ",") 0 (ps.map Piece.text) 0
  braces : Leads braceDepth (fun _ => False) 0 (ps.map Piece.text) 0

/-- A value keeps its text when the space before it is trimmed. -/
theorem trim_spaced {value : String} (hhead : ∀ c ∈ value.toList.head?, isBlank c = false)
    (hlast : ∀ c ∈ value.toList.getLast?, isBlank c = false) :
    Text.trim (" " ++ value) = value := by
  rw [Text.trim, String.toList_append, show " ".toList = [' '] from rfl, List.singleton_append,
    Text.trimBlanks_cons rfl, Text.trimBlanks_eq_self hhead hlast, String.ofList_toList]

theorem IsValue.ends {value : String} (h : IsValue value) : value ≠ "" ∧
    (∀ c ∈ value.toList.head?, isBlank c = false) ∧
      ∀ c ∈ value.toList.getLast?, isBlank c = false := by
  obtain ⟨ws, hne, hws, -, -, rfl⟩ := h
  obtain ⟨hnil, hhead, hlast⟩ := ends_of_words hne hws
  exact ⟨fun hempty => hnil (by rw [hempty]; rfl), hhead, hlast⟩

/-! ## Entries -/

/-- The pieces of an enumerator. -/
def EntryPieces (e : Enumerator) (ps : List Piece) : Prop :=
  ∃ gap vs, ps = ⟨gap, .identifier, e.name⟩ :: vs ∧
    match e.value with
    | none => vs = []
    | some v => ∃ ws, vs = ⟨" ", .punctuation, "="⟩ :: ws ∧ ValuePieces v ws

/-- The pieces of enumerators with commas between them. -/
inductive JoinedPieces : List Enumerator → List Piece → Prop
  | last {e : Enumerator} {ps : List Piece} (entry : EntryPieces e ps) : JoinedPieces [e] ps
  | more {e : Enumerator} {es : List Enumerator} {ps qs : List Piece} (entry : EntryPieces e ps)
      (rest : JoinedPieces es qs) :
      JoinedPieces (e :: es) (ps ++ ⟨"", .punctuation, ","⟩ :: qs)

namespace Enumerator

variable {e : Enumerator}

/-- The text of an enumerator is cut into its pieces. -/
theorem Canonical.reads_text (h : e.Canonical) :
    ∃ ps, Reads e.text.toList (⟨"", .identifier, e.name⟩ :: ps) endsLexeme ∧
      ∀ gap, EntryPieces e (⟨gap, .identifier, e.name⟩ :: ps) := by
  have hname := Reads.word h.name
  rw [String.ofList_toList] at hname
  have hends : ∀ c, endsLexeme c = true → Reads.endsWord c = true := by
    intro c hc
    simp only [endsLexeme, Bool.or_eq_true, beq_iff_eq] at hc
    rcases hc with (rfl | rfl) | rfl <;> decide
  unfold text EntryPieces
  cases hvalue : e.value with
  | none => exact ⟨[], by simpa using hname.weaken hends, fun gap => ⟨gap, [], rfl, rfl⟩⟩
  | some v =>
    obtain ⟨ws, hne, hws, hcommas, hbraces, rfl⟩ := h.value v hvalue
    obtain ⟨vs, hvs, hproper, htexts⟩ := reads_words hne hws
    have hequals := (Reads.mark (c := '=') rfl fun _ => true).behind rfl (.inl rfl)
    have htail := hequals.append hvs (by simp) (by simp)
    have hall := hname.append htail (by rintro c ⟨⟩; decide) (by simp)
    refine ⟨⟨" ", .punctuation, "="⟩ :: vs, by simpa using hall,
      fun gap => ⟨gap, _, rfl, vs, rfl, ?_⟩⟩
    exact ⟨hvs.spell, hproper, htexts ▸ hcommas, htexts ▸ hbraces⟩

end Enumerator

/-- The text of enumerators is cut into the pieces of its entries. -/
theorem reads_joined {e : Enumerator} {es : List Enumerator} (he : e.Canonical)
    (h : ∀ f ∈ es, f.Canonical) :
    ∃ ps, Reads (", ".intercalate ((e :: es).map Enumerator.text)).toList
        (⟨"", .identifier, e.name⟩ :: ps) endsLexeme ∧
      ∀ gap, JoinedPieces (e :: es) (⟨gap, .identifier, e.name⟩ :: ps) := by
  induction es generalizing e with
  | nil =>
    obtain ⟨ps, hps, hentry⟩ := he.reads_text
    exact ⟨ps, by simpa using hps, fun gap => .last (hentry gap)⟩
  | cons f es ih =>
    obtain ⟨ps, hps, hentry⟩ := he.reads_text
    obtain ⟨qs, hqs, hjoined⟩ := ih (h f List.mem_cons_self)
      fun g hg => h g (List.mem_cons_of_mem _ hg)
    have hcomma := (Reads.mark (c := ',') rfl fun _ => true).append (hqs.behind rfl (.inl rfl))
      (by simp) (by simp)
    have hall := hps.append hcomma (by rintro c ⟨⟩; rfl) (by simp)
    refine ⟨ps ++ ⟨"", .punctuation, ","⟩ :: ⟨" ", .identifier, f.name⟩ :: qs, ?_, fun gap => ?_⟩
    · rw [List.map_cons, List.map_cons, String.intercalate_cons_cons]
      simpa using hall
    · exact .more (hentry gap) (hjoined " ")

/-! ## Reading -/

theorem splitEntries_ne_nil (d : Int) (ts : List Token) : splitEntries d ts ≠ [] := by
  cases ts with
  | nil => simp [splitEntries]
  | cons t rest =>
    rw [splitEntries]
    split
    · simp
    · split <;> simp

theorem splitEntries_leads {d e : Int} {ts : List Token}
    (h : Leads (enumDepth ∘ Token.text) (·.text = ",") d ts e) (rest : List Token) :
    splitEntries d (ts ++ rest) = (splitEntries e rest).modifyHead (ts ++ ·) := by
  induction ts generalizing d with
  | nil =>
    rw [Leads.nil_iff.1 h, List.nil_append]
    cases splitEntries e rest <;> rfl
  | cons t ts ih =>
    obtain ⟨hmark, -, hrest⟩ := h
    have hnot : ¬(d = 0 && t.isPunctuation ",") = true := by
      simp only [Bool.and_eq_true, decide_eq_true_eq, Token.isPunctuation]
      exact fun h0 => hmark h0.1 h0.2.2
    rw [List.cons_append, splitEntries, if_neg hnot]
    have hih := ih hrest
    rw [Function.comp_apply] at hih
    rw [hih]
    cases hsplit : splitEntries e rest with
    | nil => exact absurd hsplit (splitEntries_ne_nil e rest)
    | cons entry entries => rfl

section Entries

variable {ts : List Token} {gap gap' name value : String} {ps qs : List Piece}

theorem leads_of_pieces (hts : ts.map Token.piece = ps)
    (h : Leads enumDepth (· = ",") 0 (ps.map Piece.text) 0) :
    Leads (enumDepth ∘ Token.text) (·.text = ",") 0 ts 0 := by
  rw [← hts, List.map_map] at h
  exact Leads.map.1 h

/-- Tokens with no comma outside brackets are one entry. -/
theorem splitEntries_last (hts : ts.map Token.piece = ps)
    (h : Leads enumDepth (· = ",") 0 (ps.map Piece.text) 0) : splitEntries 0 ts = [ts] := by
  have hsplit := splitEntries_leads (leads_of_pieces hts h) []
  rw [List.append_nil] at hsplit
  rw [hsplit]
  simp [splitEntries]

/-- The first comma outside brackets ends the first entry. -/
theorem exists_splitEntries_comma (hts : ts.map Token.piece = ps ++ ⟨gap, .punctuation, ","⟩ :: qs)
    (h : Leads enumDepth (· = ",") 0 (ps.map Piece.text) 0) :
    ∃ us vs, us.map Token.piece = ps ∧ vs.map Token.piece = qs ∧
      splitEntries 0 ts = us :: splitEntries 0 vs := by
  obtain ⟨us, more, rfl, hus, hmore⟩ := List.map_eq_append_iff.1 hts
  obtain ⟨comma, vs, rfl, hcomma, hvs⟩ := List.map_eq_cons_iff.1 hmore
  have hmark : comma.isPunctuation "," = true := by
    have hkind : comma.kind = .punctuation := congrArg Piece.kind hcomma
    have htext : comma.text = "," := congrArg Piece.text hcomma
    simp [Token.isPunctuation, hkind, htext]
  refine ⟨us, vs, hus, hvs, ?_⟩
  rw [splitEntries_leads (leads_of_pieces hus h), splitEntries]
  simp [hmark]

/-- An entry that is a name declares it without a value. -/
theorem enumeratorOf_name (hts : ts.map Token.piece = [⟨gap, .identifier, name⟩]) :
    enumeratorOf? ts = some ⟨name, none⟩ := by
  obtain ⟨t, rest, rfl, ht, hrest⟩ := List.map_eq_cons_iff.1 hts
  obtain rfl := List.map_eq_nil_iff.1 hrest
  have hkind : t.kind = .identifier := congrArg Piece.kind ht
  have htext : t.text = name := congrArg Piece.text ht
  simp [enumeratorOf?, valueOf, Token.isPunctuation, hkind, htext]

/-- An entry with an equals sign behind its name declares it with the text behind the sign. -/
theorem enumeratorOf_value
    (hts : ts.map Token.piece = ⟨gap, .identifier, name⟩ :: ⟨gap', .punctuation, "="⟩ :: ps)
    (hspell : Piece.spell ps = ' ' :: value.toList) (hne : value ≠ "")
    (hhead : ∀ c ∈ value.toList.head?, isBlank c = false)
    (hlast : ∀ c ∈ value.toList.getLast?, isBlank c = false) :
    enumeratorOf? ts = some ⟨name, some value⟩ := by
  obtain ⟨t, rest, rfl, ht, hrest⟩ := List.map_eq_cons_iff.1 hts
  obtain ⟨q, tail, rfl, hq, htail⟩ := List.map_eq_cons_iff.1 hrest
  have hkind : t.kind = .identifier := congrArg Piece.kind ht
  have htext : t.text = name := congrArg Piece.text ht
  have hname : t.isPunctuation "=" = false := by simp [Token.isPunctuation, hkind]
  have hequals : q.isPunctuation "=" = true := by
    have hqkind : q.kind = .punctuation := congrArg Piece.kind hq
    have hqtext : q.text = "=" := congrArg Piece.text hq
    simp [Token.isPunctuation, hqkind, hqtext]
  have hbehind : Token.spell tail = " " ++ value := by
    rw [← String.toList_inj, Piece.toList_spell, htail, hspell]
    simp
  rw [enumeratorOf?, if_pos hkind, htext, valueOf, List.dropWhile_cons_of_pos (by simp [hname]),
    List.dropWhile_cons_of_neg (by simp [hequals])]
  simp only [hbehind, trim_spaced hhead hlast, if_neg hne]

end Entries

/-- An entry's tokens declare its enumerator. -/
theorem enumeratorOf_entry {e : Enumerator} {ts : List Token} (he : e.Canonical)
    (h : EntryPieces e (ts.map Token.piece)) : enumeratorOf? ts = some e := by
  obtain ⟨gap, vs, hts, hvs⟩ := h
  obtain ⟨name, value⟩ := e
  cases value with
  | none =>
    obtain rfl : vs = [] := hvs
    exact enumeratorOf_name hts
  | some v =>
    obtain ⟨ws, rfl, hws⟩ := hvs
    obtain ⟨hne, hhead, hlast⟩ := (he.value v rfl).ends
    exact enumeratorOf_value hts hws.spell hne hhead hlast

theorem enumDepth_eq_zero {s : String} (h : ∀ m ∈ delimiters, s ≠ m) : enumDepth s = 0 := by
  have hweighs : TypeRef.WeighsTypes bracketDepth fun _ => False := .declaration (by simp)
  have hbracket := hweighs.plain s fun hm => h s hm rfl
  rw [enumDepth, hbracket, ite_self]

theorem leads_entryName {name : String} (h : IsIdentifier name) :
    Leads enumDepth (· = ",") 0 [name] 0 ∧ Leads braceDepth (fun _ => False) 0 [name] 0 := by
  have hmark : ∀ m ∈ delimiters, name ≠ m := by
    intro m hm hn
    have hnone : ∀ m ∈ delimiters, ¬IsIdentifier m := by decide
    exact hnone m hm (hn ▸ h)
  refine ⟨.plain (Int.le_refl 0) ?_, .plain (Int.le_refl 0) ?_⟩
  · rintro _ (_ | ⟨_, ⟨⟩⟩)
    exact ⟨enumDepth_eq_zero hmark, hmark "," (by decide)⟩
  · rintro _ (_ | ⟨_, ⟨⟩⟩)
    simp [braceDepth, hmark "\x7b" (by decide), hmark "\x7d" (by decide)]

theorem leads_entry {e : Enumerator} {ps : List Piece} (he : e.Canonical) (h : EntryPieces e ps) :
    Leads enumDepth (· = ",") 0 (ps.map Piece.text) 0 ∧
      Leads braceDepth (fun _ => False) 0 (ps.map Piece.text) 0 := by
  obtain ⟨gap, vs, rfl, hvs⟩ := h
  have hname := leads_entryName he.name
  cases hvalue : e.value with
  | none =>
    rw [hvalue] at hvs
    obtain rfl : vs = [] := hvs
    exact hname
  | some v =>
    rw [hvalue] at hvs
    obtain ⟨ws, rfl, hws⟩ := hvs
    have hequals : Leads enumDepth (· = ",") 0 ["="] 0 ∧
        Leads braceDepth (fun _ => False) 0 ["="] 0 := by
      refine ⟨.plain (Int.le_refl 0) ?_, .plain (Int.le_refl 0) ?_⟩ <;> decide
    exact ⟨hname.1.append (hequals.1.append hws.commas),
      hname.2.append (hequals.2.append hws.braces)⟩

theorem proper_entry {e : Enumerator} {ps : List Piece} (he : e.Canonical) (h : EntryPieces e ps) :
    ∀ p ∈ ps, p.Proper := by
  obtain ⟨gap, vs, rfl, hvs⟩ := h
  have hname : Piece.Proper ⟨gap, .identifier, e.name⟩ := by
    intro hm
    have hnone : ∀ m ∈ delimiters, ¬IsIdentifier m := by decide
    exact absurd he.name (hnone e.name hm)
  have hrest : ∀ p ∈ vs, p.Proper := by
    cases hvalue : e.value with
    | none =>
      rw [hvalue] at hvs
      obtain rfl : vs = [] := hvs
      simp
    | some v =>
      rw [hvalue] at hvs
      obtain ⟨ws, rfl, hws⟩ := hvs
      have hequals : Piece.Proper ⟨" ", .punctuation, "="⟩ := fun _ => rfl
      simpa using ⟨hequals, hws.proper⟩
  simpa using ⟨hname, hrest⟩

theorem filterMap_splitEntries {es : List Enumerator} {ps : List Piece} (h : JoinedPieces es ps)
    (hes : ∀ e ∈ es, e.Canonical) {ts : List Token} (hts : ts.map Token.piece = ps) :
    (splitEntries 0 ts).filterMap enumeratorOf? = es := by
  induction h generalizing ts with
  | @last e ps entry =>
    have he := hes e List.mem_cons_self
    rw [splitEntries_last hts (leads_entry he entry).1]
    simp [enumeratorOf_entry he (hts ▸ entry)]
  | @more e es ps qs entry _ ih =>
    have he := hes e List.mem_cons_self
    obtain ⟨us, vs, hus, hvs, hsplit⟩ := exists_splitEntries_comma hts (leads_entry he entry).1
    rw [hsplit, List.filterMap_cons, enumeratorOf_entry he (hus ▸ entry),
      ih (fun f hf => hes f (List.mem_cons_of_mem _ hf)) hvs]

/-- The text between the braces of an enum, up to the last space. -/
def entriesText : List Enumerator → String
  | [] => ""
  | e :: es => " " ++ ", ".intercalate ((e :: es).map Enumerator.text)

/-- What the text of an enum's body is cut into. -/
structure BodyPieces (es : List Enumerator) (ps : List Piece) : Prop where
  spell : Piece.spell ps = (entriesText es).toList
  proper : ∀ p ∈ ps, p.Proper
  braces : Leads braceDepth (fun _ => False) 0 (ps.map Piece.text) 0

theorem JoinedPieces.leads {es : List Enumerator} {ps : List Piece} (h : JoinedPieces es ps)
    (hes : ∀ e ∈ es, e.Canonical) :
    (∀ p ∈ ps, p.Proper) ∧ Leads braceDepth (fun _ => False) 0 (ps.map Piece.text) 0 := by
  induction h with
  | @last e ps entry =>
    have he := hes e List.mem_cons_self
    exact ⟨proper_entry he entry, (leads_entry he entry).2⟩
  | @more e es ps qs entry _ ih =>
    have he := hes e List.mem_cons_self
    obtain ⟨hproper, hleads⟩ := ih fun f hf => hes f (List.mem_cons_of_mem _ hf)
    have hcomma : Leads braceDepth (fun _ => False) 0 [","] 0 := .plain (Int.le_refl 0) (by decide)
    refine ⟨?_, ?_⟩
    · simp only [List.mem_append, List.mem_cons]
      rintro p (hp | rfl | hp)
      · exact proper_entry he entry p hp
      · exact fun _ => rfl
      · exact hproper p hp
    · rw [List.map_append]
      exact (leads_entry he entry).2.append (hcomma.append hleads)

theorem head_entries {e : Enumerator} (es : List Enumerator) (he : e.Canonical) :
    ∀ c ∈ (", ".intercalate ((e :: es).map Enumerator.text)).toList.head?,
      c ≠ '#' ∧ isBlank c = false := by
  obtain ⟨c, cs, hname⟩ :=
    List.exists_cons_of_ne_nil (toList_ne_nil (ne_empty_of_isIdentifier he.name))
  have hhead := SpellsPieces.ne_sharp_of_isWordChar (c := c)
    (Token.isWordChar_of_mem he.name (by rw [hname]; exact List.mem_cons_self))
  have hall : ∃ tail, (", ".intercalate ((e :: es).map Enumerator.text)).toList =
      e.name.toList ++ tail := by
    cases es with
    | nil => exact ⟨_, by simp [Enumerator.text]; rfl⟩
    | cons f es => exact ⟨_, by simp [Enumerator.text, String.intercalate_cons_cons]; rfl⟩
  obtain ⟨tail, htail⟩ := hall
  rw [htail, hname]
  rintro d ⟨⟩
  exact hhead

/-- The text of an enum's body is cut into pieces up to its closing brace. -/
theorem reads_body {es : List Enumerator} (h : ∀ e ∈ es, e.Canonical) (f : Char → Bool) :
    ∃ ps, Reads (entriesText es ++ " \x7d").toList (ps ++ [⟨" ", .punctuation, "\x7d"⟩]) f ∧
      BodyPieces es ps := by
  have hclose := (Reads.mark (c := '\x7d') rfl f).behind rfl (.inl rfl)
  cases es with
  | nil => exact ⟨[], hclose, rfl, by simp, rfl⟩
  | cons e es =>
    obtain ⟨ps, hps, hjoined⟩ := reads_joined (h e List.mem_cons_self)
      fun g hg => h g (List.mem_cons_of_mem _ hg)
    have hbody := hps.behind rfl (.inl rfl)
    obtain ⟨hproper, hbraces⟩ := (hjoined " ").leads h
    refine ⟨⟨" ", .identifier, e.name⟩ :: ps, ?_, ?_, hproper, hbraces⟩
    · have hall := hbody.append hclose (by rintro c ⟨⟩; rfl) (by simp)
      simpa [entriesText] using hall
    · simpa [entriesText] using hbody.spell

/-- Canonical enumerators are read off their text. -/
theorem Enumerator.parseAll_text {es : List Enumerator} (h : ∀ e ∈ es, e.Canonical) :
    Enumerator.parseAll (entriesText es ++ " ") = es := by
  have hblank : Token.gapPiece? false [' '] = some ([' '], []) := rfl
  have hend : Token.pieces false [' '] = [] := by
    rw [Token.pieces_of_splitGap_eq_nil]
    rw [Token.splitGap_of_some hblank, Token.splitGap_of_none rfl]
  have hlex : (Token.lex (entriesText es ++ " ")).map Token.piece =
      Token.pieces true (entriesText es ++ " ").toList := Token.map_piece_lexFrom _ _
  cases es with
  | nil => decide +kernel
  | cons e es =>
    have he := h e List.mem_cons_self
    obtain ⟨ps, hps, hjoined⟩ := reads_joined he fun f hf => h f (List.mem_cons_of_mem _ hf)
    have hpieces : Token.pieces true
        (' ' :: ((", ".intercalate ((e :: es).map Enumerator.text)).toList ++ [' '])) = _ :=
      hps.pieces_behind rfl rfl (.inr (head_entries es he)) (by rintro c ⟨⟩; rfl)
    rw [hend, List.append_nil] at hpieces
    have htext : (entriesText (e :: es) ++ " ").toList =
        ' ' :: ((", ".intercalate ((e :: es).map Enumerator.text)).toList ++ [' ']) := by
      simp [entriesText]
    rw [htext, hpieces] at hlex
    exact filterMap_splitEntries (hjoined " ") h hlex

end HeaderReflection
