import HeaderReflection.Proofs.Artifact.Indices
import HeaderReflection.Proofs.Token.Spacing

/-!
# Texts in table rows

A row of a table holds texts as string literals. The lexer finds each of them where its column is,
whatever quotes, backslashes and line ends the texts have, and no two texts have one literal.

* `unescape_escape`: the escapes of a text are undone.
* `pieces_quote`: a literal is one token, whatever stands behind it.
* `escapeLiteral_eq_successive`: the escapes may be written one character after another.
* `rows_hold_texts`: the rows of properties and functions.
-/

namespace HeaderReflection

open Token (Kind pieces doubleQuote)

/-! ## Reading literals -/

/-- What a character means behind a backslash. -/
def simpleEscape? (c : Char) : Option Char :=
  [('\\', '\\'), ('\x22', '\x22'), ('\x27', '\x27'), ('?', '?'), ('a', '\x07'), ('b', '\x08'),
    ('f', '\x0c'), ('n', '\n'), ('r', '\x0d'), ('t', '\t'), ('v', '\x0b')].lookup c

/-- The text that the characters between two quotes mean. No quote and no line end stands there
without a backslash. -/
def unescape : List Char → Option (List Char)
  | [] => some []
  | '\\' :: [] => none
  | '\\' :: c :: rest => do
    let d ← simpleEscape? c
    let more ← unescape rest
    some (d :: more)
  | c :: rest => if c ∈ ['\x22', '\n', '\x0d'] then none else (unescape rest).map (c :: ·)

/-- The text that a string literal means. -/
def literalText? (literal : String) : Option String :=
  match literal.toList with
  | '\x22' :: rest =>
    if rest.getLast? = some '\x22' then (unescape rest.dropLast).map String.ofList else none
  | _ => none

/-- A character as a literal has it: itself, or its letter behind a backslash. -/
theorem escapeLiteralChar_cases (c : Char) :
    (∃ d, escapeLiteralChar c = ['\\', d] ∧ simpleEscape? d = some c ∧ d ∉ ['\n', '\x0d']) ∨
      escapeLiteralChar c = [c] ∧ c ∉ ['\\', '\x22', '\n', '\x0d', '\t'] := by
  by_cases h : c ∈ ['\\', '\x22', '\n', '\x0d', '\t']
  · refine .inl ?_
    simp only [List.mem_cons, List.not_mem_nil, or_false] at h
    rcases h with rfl | rfl | rfl | rfl | rfl <;> exact ⟨_, rfl, by decide, by decide⟩
  · refine .inr ⟨?_, h⟩
    simp only [List.mem_cons, List.not_mem_nil, or_false, not_or] at h
    simp [escapeLiteralChar, h]

theorem unescape_cons {c : Char} (h : c ∉ ['\\', '\x22', '\n', '\x0d', '\t']) (rest : List Char) :
    unescape (c :: rest) = (unescape rest).map (c :: ·) := by
  simp only [List.mem_cons, List.not_mem_nil, or_false, not_or] at h
  rw [unescape]
  · simp [h]
  all_goals
    intros
    exact absurd ‹_› h.1

/-- The escapes of a text are undone. -/
theorem unescape_escape (cs : List Char) : unescape (cs.flatMap escapeLiteralChar) = some cs := by
  induction cs with
  | nil => rfl
  | cons c cs ih =>
    rw [List.flatMap_cons]
    rcases escapeLiteralChar_cases c with ⟨d, hescape, hd, -⟩ | ⟨hself, hplain⟩
    · rw [hescape]
      simp [unescape, hd, ih]
    · rw [hself, List.singleton_append, unescape_cons hplain, ih]
      rfl

theorem toList_quote (s : String) :
    (quote s).toList = '\x22' :: (s.toList.flatMap escapeLiteralChar ++ ['\x22']) := by
  simp [quote, escapeLiteral]

/-- A literal means the text that it is made of. -/
theorem literalText_quote (s : String) : literalText? (quote s) = some s := by
  rw [literalText?, toList_quote]
  simp [unescape_escape]

theorem quote_injective : Function.Injective quote := by
  intro s t h
  have htexts := congrArg literalText? h
  rwa [literalText_quote, literalText_quote, Option.some_inj] at htexts

/-- A literal stands on one line. -/
theorem notMem_quote (s : String) {c : Char} (hc : c ∈ ['\n', '\x0d']) : c ∉ (quote s).toList := by
  have hline : c ≠ '\x22' ∧ c ≠ '\\' ∧ c ∈ ['\\', '\x22', '\n', '\x0d', '\t'] := by
    revert c
    decide
  rw [toList_quote]
  simp only [List.mem_cons, List.mem_append, List.mem_flatMap, List.not_mem_nil, or_false, not_or,
    not_exists, not_and]
  refine ⟨hline.1, fun d _ hmem => ?_, hline.1⟩
  rcases escapeLiteralChar_cases d with ⟨e, hescape, -, he⟩ | ⟨hself, hplain⟩
  · rw [hescape, List.mem_cons, List.mem_singleton] at hmem
    exact hmem.elim hline.2.1 (fun h => he (h ▸ hc))
  · rw [hself, List.mem_singleton] at hmem
    exact hplain (hmem ▸ hline.2.2)

/-- An identifier needs no escapes. -/
theorem quote_of_isIdentifier {name : String} (h : IsIdentifier name) :
    quote name = "\"" ++ name ++ "\"" := by
  have hchars : ∀ c ∈ name.toList, escapeLiteralChar c = [c] := by
    intro c hc
    have hword := Token.isWordChar_of_mem h hc
    have hnone : ∀ d ∈ ['\\', '\x22', '\n', '\x0d', '\t'], Text.isWordChar d = false := by decide
    have hplain : c ∉ ['\\', '\x22', '\n', '\x0d', '\t'] := fun hmem => by
      rw [hnone c hmem] at hword
      cases hword
    simp only [List.mem_cons, List.not_mem_nil, or_false, not_or] at hplain
    simp [escapeLiteralChar, hplain]
  rw [quote, escapeLiteral, List.flatMap_congr hchars, List.flatMap_singleton',
    String.ofList_toList]

/-! ## One character after another -/

/-- All occurrences of a character replaced by a text. -/
def replaceAll (c : Char) (text : List Char) (cs : List Char) : List Char :=
  cs.flatMap fun d => if d = c then text else [d]

/-- The escapes may be written one character after another, if backslashes come first. -/
theorem escapeLiteral_eq_successive (s : String) :
    (escapeLiteral s).toList = replaceAll '\t' ['\\', 't'] (replaceAll '\x0d' ['\\', 'r']
      (replaceAll '\n' ['\\', 'n'] (replaceAll '\x22' ['\\', '\x22']
        (replaceAll '\\' ['\\', '\\'] s.toList)))) := by
  simp only [escapeLiteral, String.toList_ofList, replaceAll, List.flatMap_assoc]
  refine List.flatMap_congr fun c _ => ?_
  by_cases h : c ∈ ['\\', '\x22', '\n', '\x0d', '\t']
  · simp only [List.mem_cons, List.not_mem_nil, or_false] at h
    rcases h with rfl | rfl | rfl | rfl | rfl <;> decide
  · simp only [List.mem_cons, List.not_mem_nil, or_false, not_or] at h
    simp [escapeLiteralChar, h]

/-! ## The lexer on literals -/

/-- A quoted text with its escapes ends at its own quote. -/
theorem splitQuoted_escape (cs rest : List Char) :
    Token.splitQuoted doubleQuote (cs.flatMap escapeLiteralChar ++ '\x22' :: rest) =
      (cs.flatMap escapeLiteralChar ++ ['\x22'], rest) := by
  induction cs with
  | nil => rfl
  | cons c cs ih =>
    rw [List.flatMap_cons]
    rcases escapeLiteralChar_cases c with ⟨d, hescape, -, -⟩ | ⟨hself, hplain⟩
    · rw [hescape]
      simp [Token.splitQuoted, ih]
    · simp only [List.mem_cons, List.not_mem_nil, or_false, not_or] at hplain
      rw [hself, List.singleton_append, List.cons_append, Token.splitQuoted_cons hplain.1,
        if_neg hplain.2.2.1, if_neg (show c ≠ doubleQuote from hplain.2.1), ih]
      rfl

theorem reads_quote (s : String) (f : Char → Bool) :
    Reads (quote s).toList [⟨"", .string, quote s⟩] f := by
  have hlex : ∀ rest : List Char,
      Token.splitLexeme '\x22' (s.toList.flatMap escapeLiteralChar ++ ['\x22'] ++ rest) =
        (.string, '\x22' :: (s.toList.flatMap escapeLiteralChar ++ ['\x22']), rest) := by
    intro rest
    have hquoted := splitQuoted_escape s.toList rest
    rw [List.append_assoc, List.singleton_append, Token.splitLexeme,
      if_neg (by decide), if_neg (by rintro ⟨⟩),
      if_pos (show '\x22' = doubleQuote from rfl)]
    exact congrArg (fun split => (Kind.string, '\x22' :: split.1, split.2)) hquoted
  have hline : Token.atLineStart false
      ('\x22' :: (s.toList.flatMap escapeLiteralChar ++ ['\x22'])) = false := by
    refine Token.atLineStart_of_getLast (c := '\x22') ?_ rfl false
    rw [← List.cons_append, List.getLast?_concat]
    rfl
  have hreads := Reads.lexeme (f := f)
    (fun rest _ => Token.gapPiece_of_opensLexeme (by decide) false _) (fun rest _ => hlex rest)
    hline
  rwa [← toList_quote, String.ofList_toList] at hreads

/-- A literal is one token, whatever stands behind it. -/
theorem pieces_quote (s : String) (before : Bool) (rest : List Char) :
    pieces before ((quote s).toList ++ rest) = ⟨"", .string, quote s⟩ :: pieces false rest := by
  have hpieces := (reads_quote s fun _ => true).pieces rest (by simp)
  rw [toList_quote, List.cons_append] at hpieces ⊢
  rw [Token.pieces_of_opensLexeme (by decide) rfl, hpieces]
  rfl

theorem quote_mem_of_splitWord {word rest : List Char}
    (h : (Token.splitWord word rest).1 = .string) :
    doubleQuote ∈ (Token.splitWord word rest).2.1 := by
  cases rest with
  | nil => cases h
  | cons c rest =>
    by_cases hc : c = doubleQuote
    · subst hc
      unfold Token.splitWord at *
      dsimp only at h ⊢
      split at h
      · rename_i hraw
        rw [if_pos hraw]
        simp
      · rename_i hraw
        rw [if_neg hraw]
        split at h
        · rename_i hmark
          rw [if_pos hmark]
          simp
        · cases h
    · simp [Token.splitWord, hc] at h

/-- A string has a quote. -/
theorem quote_mem_of_splitLexeme {c : Char} {rest : List Char}
    (h : (Token.splitLexeme c rest).1 = .string) :
    doubleQuote ∈ (Token.splitLexeme c rest).2.1 := by
  rw [Token.splitLexeme] at h ⊢
  split at h
  · rename_i hstart
    rw [if_pos hstart]
    exact quote_mem_of_splitWord h
  rename_i hstart
  rw [if_neg hstart]
  split at h
  · cases h
  rename_i hnumber
  rw [if_neg hnumber]
  split at h
  · rename_i hdouble
    rw [if_pos hdouble, hdouble]
    exact List.mem_cons_self
  · split at h
    · cases h
    · split at h <;> cases h

/-- Where no quote stands, no token is a string. -/
theorem kind_ne_string {cs : List Char} (h : doubleQuote ∉ cs) (before : Bool) :
    ∀ p ∈ pieces before cs, p.kind ≠ .string := by
  induction hn : cs.length using Nat.strong_induction_on generalizing before cs with
  | _ n ih =>
    rcases hg : Token.splitGap before cs with ⟨gap, _ | ⟨c, rest⟩⟩
    · rw [Token.pieces_of_splitGap_eq_nil (by rw [hg])]
      simp
    obtain ⟨kind, taken, tail, hlex, rfl⟩ := Token.exists_splitLexeme c rest
    have happ := Token.append_splitGap before cs
    rw [hg] at happ
    simp only at happ
    have hshort : tail.length < n := by
      rw [← hn, ← happ]
      simp only [List.length_append, List.length_cons]
      omega
    have htail : doubleQuote ∉ tail := fun hmem => h (by rw [← happ]; simp [hmem])
    have htaken : doubleQuote ∉ c :: taken := fun hmem => h <| by
      rw [← happ, ← List.cons_append]
      exact List.mem_append_right _ (List.mem_append_left _ hmem)
    rw [Token.pieces_of_splitGap hg, hlex, List.forall_mem_cons]
    refine ⟨fun hkind => htaken ?_, ih _ hshort htail _ rfl⟩
    have hstring : (Token.splitLexeme c (taken ++ tail)).1 = .string := by
      rw [hlex]
      exact hkind
    have hmem := quote_mem_of_splitLexeme hstring
    rwa [hlex] at hmem

/-! ## Rows -/

/-- The columns of a row that hold texts, each behind a space and before a comma. -/
def cells (texts : List String) : String :=
  String.join (texts.map fun t => " " ++ quote t ++ ",")

/-- The pieces of such columns. -/
def cellPieces (texts : List String) : List Piece :=
  texts.flatMap fun t => [⟨" ", .string, quote t⟩, ⟨"", .punctuation, ","⟩]

theorem pieces_cells (texts : List String) (rest : List Char) :
    pieces false ((cells texts).toList ++ rest) = cellPieces texts ++ pieces false rest := by
  induction texts with
  | nil => rfl
  | cons t ts ih =>
    have htext : (cells (t :: ts)).toList ++ rest =
        ' ' :: ((quote t).toList ++ ',' :: ((cells ts).toList ++ rest)) := by
      simp [cells]
    rw [htext, Token.pieces_space, pieces_quote, Token.pieces_mark (c := ',') rfl, ih]
    rfl

/-- A row is the brace that opens it, its columns and what stands behind them. -/
theorem pieces_row {line : String} {texts : List String} {rest : String}
    (hline : line = "    \x7b" ++ cells texts ++ rest) :
    (Token.lex line).map Token.piece =
      ⟨"    ", .punctuation, "\x7b"⟩ :: cellPieces texts ++ pieces false rest.toList := by
  have hlex : (Token.lex line).map Token.piece = pieces true line.toList :=
    Token.map_piece_lexFrom _ _
  have htext : line.toList =
      [' ', ' ', ' ', ' '] ++ '\x7b' :: ((cells texts).toList ++ rest.toList) := by
    rw [hline]
    simp
  rw [hlex, htext, Token.pieces_blanks (by decide), Token.pieces_mark (c := '\x7b') rfl,
    pieces_cells]
  rfl

theorem intercalate_cells (texts : List String) {fields : List String} (hne : fields ≠ []) :
    " " ++ ", ".intercalate (texts.map quote ++ fields) =
      cells texts ++ (" " ++ ", ".intercalate fields) := by
  induction texts with
  | nil => simp [cells]
  | cons t ts ih =>
    have hcells : cells (t :: ts) = " " ++ quote t ++ "," ++ cells ts := by simp [cells]
    have hsplit : ∀ s : String, ", " ++ s = "," ++ (" " ++ s) := fun s => by
      rw [← String.append_assoc]
      rfl
    rw [List.map_cons, List.cons_append, String.intercalate_cons_of_ne_nil (by simp [hne]), hcells]
    simp only [String.append_assoc, hsplit, ih]

theorem row_eq (texts : List String) {fields : List String} (hne : fields ≠ []) :
    Tables.row (texts.map quote ++ fields) =
      "    \x7b" ++ cells texts ++ (" " ++ ", ".intercalate fields ++ " \x7d,") := by
  have hopen : "    \x7b " = "    \x7b" ++ " " := by decide
  have hcells := congrArg (· ++ " \x7d,") (intercalate_cells texts hne)
  rw [Tables.row, hopen]
  simp only [String.append_assoc] at hcells ⊢
  rw [hcells]

/-- A row holds texts as the literals of its first columns, and has no other literals unless what
stands behind them has a quote. It is one line, unless a line ends in what stands behind them. -/
structure HoldsTexts (line : String) (texts : List String) (rest : String) : Prop where
  pieces : (Token.lex line).map Token.piece =
    ⟨"    ", .punctuation, "\x7b"⟩ :: cellPieces texts ++ Token.pieces false rest.toList
  unquoted : ∀ t ∈ texts, literalText? (quote t) = some t
  strings : doubleQuote ∉ rest.toList →
    ((Token.lex line).filter (·.kind = .string)).map (fun t => literalText? t.text) =
      texts.map some
  oneLine : ∀ c ∈ ['\n', '\x0d'], c ∈ line.toList ↔ c ∈ rest.toList

theorem filter_cellPieces (texts : List String) :
    ((cellPieces texts).filter (·.kind = .string)).map Piece.text = texts.map quote := by
  induction texts with
  | nil => rfl
  | cons t ts ih => simpa [cellPieces] using ih

theorem holdsTexts_cells {line : String} {texts : List String} {rest : String}
    (hline : line = "    \x7b" ++ cells texts ++ rest) : HoldsTexts line texts rest where
  pieces := pieces_row hline
  unquoted t _ := literalText_quote t
  strings hrest := by
    have hnone : (Token.pieces false rest.toList).filter (·.kind = .string) = [] :=
      List.filter_eq_nil_iff.2 fun p hp => by simpa using kind_ne_string hrest false p hp
    have hstrings : ((Token.lex line).filter (·.kind = .string)).map Token.text =
        texts.map quote := by
      have hsame : ((Token.lex line).filter (·.kind = .string)).map Token.text =
          (((Token.lex line).map Token.piece).filter (·.kind = .string)).map Piece.text := by
        rw [List.filter_map, List.map_map]
        rfl
      rw [hsame, pieces_row hline]
      simp [hnone, filter_cellPieces]
    have htexts := congrArg (List.map literalText?) hstrings
    simpa [Function.comp_def, literalText_quote] using htexts
  oneLine c hc := by
    have hother : c ≠ ' ' ∧ c ≠ '\x7b' ∧ c ≠ ',' := by
      revert c
      decide
    have hcells : c ∉ (cells texts).toList := by
      clear hline
      induction texts with
      | nil => simp [cells]
      | cons t ts ih =>
        have htext : cells (t :: ts) = " " ++ quote t ++ "," ++ cells ts := by simp [cells]
        simp [htext, hother, notMem_quote t hc, ih]
    rw [hline]
    simp [hother, hcells]

/-! ## Tables -/

namespace Tables

/-- The row behind those of the functions. -/
def lastMethodRow : String :=
  row ["nullptr", "nullptr", "nullptr", "nullptr", "false", "false"]

/-- The rows under the heading of the table of functions. -/
def methodRows (runtime : String) (r : Resolved) : List String :=
  below (heading runtime r .functions) "\x7d;" (inlinedLines runtime r)

theorem heading_functions_ne (runtime : String) (r : Resolved) :
    heading runtime r .functions ≠ heading runtime r .properties ∧
      heading runtime r .functions ≠ heading runtime r .propertyCount := by
  constructor
  · unfold heading tableHeading
    simp only [String.append_assoc, ne_eq, String.append_right_inj]
    exact ne_of_startsWith (startsWith_append "FunctionDesc" _)
      (startsWith_eq_false (startsWith_append "PropertyDesc" _) (by decide) (by decide))
  · exact ne_of_startsWith (startsWith_heading runtime r .functions)
      (startsWith_eq_false (startsWith_heading runtime r .propertyCount) (by decide) (by decide))

theorem methodRows_eq (runtime : String) {r : Resolved} (hkind : r.container.kind ≠ .enum) :
    methodRows runtime r = r.container.methods.map methodRow ++ [lastMethodRow] := by
  have hlines : inlinedLines runtime r = (bannerLines r ++ tableLines runtime r .properties
      .propertyCount (r.container.properties.map (propertyRow runtime)) (lastPropertyRow runtime)
      ++ [""]) ++ heading runtime r .functions ::
        (r.container.methods.map methodRow ++ [lastMethodRow] ++ "\x7d;" ::
          heading runtime r .functionCount ::
            (accessorLines runtime r ++ ancestryLines runtime r)) := by
    rw [inlinedLines_of_ne_enum runtime hkind, tablesLines, tableLines, tableLines]
    simp [lastMethodRow]
  have hfilter : (bannerLines r ++ tableLines runtime r .properties .propertyCount
      (r.container.properties.map (propertyRow runtime)) (lastPropertyRow runtime)
      ++ [""]).filter isDefinition =
        [heading runtime r .properties, heading runtime r .propertyCount] := by
    have hrows : ∀ line ∈ r.container.properties.map (propertyRow runtime),
        isDefinition line = false := by
      intro line hline
      obtain ⟨p, -, rfl⟩ := List.mem_map.1 hline
      exact isDefinition_row _
    have hlast : isDefinition (lastPropertyRow runtime) = false := isDefinition_row _
    have htable := filter_tableLines runtime r .properties .propertyCount hrows hlast
    rw [List.filter_append, List.filter_append, filter_bannerLines, htable]
    rfl
  rw [methodRows, hlines]
  refine below_append (notMem_of_filter_isDefinition hfilter (isDefinition_heading ..) ?_)
    (notMem_of_startsWith_blank ?_ (by decide)) _
  · simp [heading_functions_ne]
  · intro l hl
    rcases List.mem_append.1 hl with hl | hl
    · obtain ⟨m, -, rfl⟩ := List.mem_map.1 hl
      exact startsWith_row _
    · rw [List.mem_singleton.1 hl]
      exact startsWith_row _

end Tables

/-- The row of a property holds its texts, in front of its visibility. -/
theorem holdsTexts_propertyRow (runtime : String) {p : Property} (hp : IsIdentifier p.name) :
    HoldsTexts (Tables.propertyRow runtime p)
      [p.name, displayName p.name p.type.name p.attributes, p.type.render, p.attributes.render]
      (" " ++ runtime ++ "::Visibility::" ++ p.visibility.descriptor ++ " \x7d,") := by
  refine holdsTexts_cells ?_
  have hfields : [runtime ++ "::Visibility::" ++ p.visibility.descriptor] ≠ [] := by simp
  have hrow := row_eq [p.name, displayName p.name p.type.name p.attributes, p.type.render,
    p.attributes.render] hfields
  rw [Tables.propertyRow, ← quote_of_isIdentifier hp]
  simpa [String.append_assoc] using hrow

/-- The row of a function holds its texts, in front of two truth values. -/
theorem holdsTexts_methodRow {m : Method} (hm : IsIdentifier m.signature.name) :
    HoldsTexts (Tables.methodRow m)
      [m.signature.name, m.signature.returnType.render, parameterList m.signature.parameters,
        m.attributes.render]
      (" " ++ toString m.signature.isStatic ++ ", " ++ toString m.signature.isConst
        ++ " \x7d,") := by
  refine holdsTexts_cells ?_
  have hfields : [toString m.signature.isStatic, toString m.signature.isConst] ≠ [] := by simp
  have hrow := row_eq [m.signature.name, m.signature.returnType.render,
    parameterList m.signature.parameters, m.attributes.render] hfields
  rw [Tables.methodRow, ← quote_of_isIdentifier hm]
  simpa [String.append_assoc] using hrow

/-- Truth values have no quotes and no line ends. -/
theorem notMem_truthValues (isStatic isConst : Bool) :
    ∀ c ∈ [doubleQuote, '\n', '\x0d'],
      c ∉ (" " ++ toString isStatic ++ ", " ++ toString isConst ++ " \x7d,").toList := by
  cases isStatic <;> cases isConst <;> decide

open Tables in
/-- **The rows of properties and functions lose no text.** Whatever its display name, type and
attributes are, the row of a property is one line with four literals in its first columns, which
mean the name, the display name, the type and the attributes, as long as the namespace of the
descriptors has no quote and no line end. The row of a function always is one line with four
literals, which mean the name, the return type, the parameters and the attributes. No two texts have
one literal, and its escapes are the five replacements one after another. -/
theorem rows_hold_texts (runtime : String) (r : Resolved) (hkind : r.container.kind ≠ .enum) :
    propertyRows runtime r =
      r.container.properties.map (propertyRow runtime) ++ [lastPropertyRow runtime] ∧
    methodRows runtime r = r.container.methods.map methodRow ++ [lastMethodRow] ∧
    (∀ p : Property, IsIdentifier p.name →
      HoldsTexts (propertyRow runtime p)
        [p.name, displayName p.name p.type.name p.attributes, p.type.render, p.attributes.render]
        (" " ++ runtime ++ "::Visibility::" ++ p.visibility.descriptor ++ " \x7d,")) ∧
    (∀ m : Method, IsIdentifier m.signature.name →
      HoldsTexts (methodRow m)
        [m.signature.name, m.signature.returnType.render, parameterList m.signature.parameters,
          m.attributes.render]
        (" " ++ toString m.signature.isStatic ++ ", " ++ toString m.signature.isConst
          ++ " \x7d,") ∧
      ((Token.lex (methodRow m)).filter (·.kind = .string)).map (fun t => literalText? t.text) =
        [some m.signature.name, some m.signature.returnType.render,
          some (parameterList m.signature.parameters), some m.attributes.render] ∧
      '\n' ∉ (methodRow m).toList ∧ '\x0d' ∉ (methodRow m).toList) ∧
    Function.Injective quote ∧
    ∀ s : String, (escapeLiteral s).toList =
      replaceAll '\t' ['\\', 't'] (replaceAll '\x0d' ['\\', 'r'] (replaceAll '\n' ['\\', 'n']
        (replaceAll '\x22' ['\\', '\x22'] (replaceAll '\\' ['\\', '\\'] s.toList)))) := by
  refine ⟨propertyRows_eq runtime hkind, methodRows_eq runtime hkind,
    fun p hp => holdsTexts_propertyRow runtime hp, fun m hm => ?_, quote_injective,
    escapeLiteral_eq_successive⟩
  have hholds := holdsTexts_methodRow hm
  have hplain := notMem_truthValues m.signature.isStatic m.signature.isConst
  exact ⟨hholds, hholds.strings (hplain _ (by simp)),
    mt (hholds.oneLine _ (by simp)).1 (hplain _ (by simp)),
    mt (hholds.oneLine _ (by simp)).1 (hplain _ (by simp))⟩

/-- A struct with a property and a function. The display name of the one and a note to the other
have a backslash before a quote, a line end and a tab. -/
def quotedMembers : Resolved where
  container :=
    { name := "S", kind := .struct, fileId := "a.h", position := .start
      properties :=
        [⟨"a", { name := "int" }, .public, [("DisplayName", .text "A \\\"b\"\n\t,")], .start⟩]
      methods :=
        [⟨⟨"f", { name := "int" }, [], true, false⟩, .public,
          [("Note", .text "f \\\"b\"\n\t,")], .start⟩] }
  ancestors := []

/-- The rows of the two are one line each, and their literals mean their texts. -/
theorem rows_hold_texts_quoted :
    quotedMembers.container.kind ≠ .enum ∧
    Tables.propertyRows "::reflect" quotedMembers =
      quotedMembers.container.properties.map (Tables.propertyRow "::reflect")
        ++ [Tables.lastPropertyRow "::reflect"] ∧
    (∀ p ∈ quotedMembers.container.properties,
      ((Token.lex (Tables.propertyRow "::reflect" p)).filter (·.kind = .string)).map
          (fun t => literalText? t.text) =
        [some "a", some "A \\\"b\"\n\t,", some "int",
          some p.attributes.render]) ∧
    Tables.methodRows "::reflect" quotedMembers =
      quotedMembers.container.methods.map Tables.methodRow ++ [Tables.lastMethodRow] ∧
    ∀ m ∈ quotedMembers.container.methods,
      ((Token.lex (Tables.methodRow m)).filter (·.kind = .string)).map
          (fun t => literalText? t.text) =
        [some "f", some "int", some "()", some m.attributes.render] ∧
      '\n' ∉ (Tables.methodRow m).toList := by
  have hkind : quotedMembers.container.kind ≠ .enum := by decide
  obtain ⟨hrows, hrows', hproperties, hmethods, -⟩ :=
    rows_hold_texts "::reflect" quotedMembers hkind
  refine ⟨hkind, hrows, fun p hp => ?_, hrows', fun m hm => ?_⟩
  · obtain rfl := List.mem_singleton.1 hp
    exact (hproperties _ (by decide)).strings (by decide)
  · have hname : IsIdentifier m.signature.name := by
      rw [List.mem_singleton.1 hm]
      decide
    obtain ⟨-, hstrings, hline, -⟩ := hmethods m hname
    obtain rfl := List.mem_singleton.1 hm
    exact ⟨hstrings, hline⟩

end HeaderReflection
