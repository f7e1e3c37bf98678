import HeaderReflection.Proofs.Artifact.Literals
import HeaderReflection.Proofs.Lineage.Reachable

/-!
# The check for ancestors

The generated check for ancestors is read as statements and run. It walks an array of names, which
is read from the line above it, and compares texts as `strcmp` does.

* `elements_arrayNames`: the array holds the names of the ancestors and a null pointer.
* `statements_isABody`: the statements of the function.
* `answer_inlinedLines`: what the function answers.
* `generated_isA`: the array and the answer, for a resolved container.
-/

namespace HeaderReflection

/-! ## Reading a function -/

/-- The text between a front and a back that a line has. -/
def between? (front back line : String) : Option String := do
  let tail ← front.toList.isPrefixOf? line.toList
  let text ← back.toList.isSuffixOf? tail
  some (String.ofList text)

theorem between_eq_some_iff {front back line text : String} :
    between? front back line = some text ↔ front ++ text ++ back = line := by
  simp only [between?, Option.bind_eq_bind, Option.bind_eq_some_iff,
    List.isPrefixOf?_eq_some_iff_append_eq, List.isSuffixOf?_eq_some_iff_append_eq,
    Option.some_inj]
  constructor
  · rintro ⟨tail, htail, cs, rfl, rfl⟩
    rw [← String.toList_inj, ← htail]
    simp
  · rintro rfl
    exact ⟨(text ++ back).toList, by simp, text.toList, by simp, String.ofList_toList⟩

/-- What a name is compared with: a fixed text, or the element that a loop has come to. -/
inductive Operand where
  | literal (text : String)
  | element
  deriving DecidableEq, Repr

/-- The statements of a function that answers a question about a name. -/
inductive Statement where
  /-- It is answered with yes if the name equals the operand. -/
  | answerIf (operand : Operand)
  /-- The same for several operands and each element of an array before its null pointer. -/
  | walk (array : String) (operands : List Operand)
  | answer (yes : Bool)
  deriving DecidableEq, Repr

/-- A line of such a function. -/
inductive FunctionLine where
  | answerIf (operand : Operand)
  | opens (array : String)
  | closes
  | answer (yes : Bool)
  deriving DecidableEq, Repr

/-- The operand that a text stands for. -/
def Operand.ofText? (text : String) : Option Operand :=
  if text = "*it" then some .element else (literalText? text).map .literal

/-- What a line says that is not indented. -/
def FunctionLine.ofText? (text : String) : Option FunctionLine :=
  if text = "\x7d" then some .closes
  else if text = "return true;" then some (.answer true)
  else if text = "return false;" then some (.answer false)
  else
    match between? "if (std::strcmp(typeName, " ") == 0) return true;" text with
    | some operand => (Operand.ofText? operand).map .answerIf
    | none =>
      (between? "for (const char* const* it = " "; *it != nullptr; ++it) \x7b" text).map .opens

/-- What a line says, whatever its indentation is. -/
def FunctionLine.ofLine? (line : String) : Option FunctionLine :=
  ofText? (String.ofList (line.toList.dropWhile (· = ' ')))

/-- The statements that lines make up, given the loop that is open before them. -/
def statements? : Option (String × List Operand) → List String → Option (List Statement)
  | none, [] => some []
  | some _, [] => none
  | none, line :: rest =>
    match FunctionLine.ofLine? line with
    | some (.answerIf operand) => (statements? none rest).map (.answerIf operand :: ·)
    | some (.answer yes) => (statements? none rest).map (.answer yes :: ·)
    | some (.opens array) => statements? (some (array, [])) rest
    | _ => none
  | some (array, operands), line :: rest =>
    match FunctionLine.ofLine? line with
    | some (.answerIf operand) => statements? (some (array, operands ++ [operand])) rest
    | some .closes => (statements? none rest).map (.walk array operands :: ·)
    | _ => none

/-- An element of an array of strings: a literal, or nothing for a null pointer. -/
def element? (token : String) : Option (Option String) :=
  if token = "nullptr" then some none else (literalText? token).map some

/-- Elements with commas between them. -/
def elements? : List String → Option (List (Option String))
  | [] => none
  | [token] => (element? token).map ([·])
  | token :: separator :: rest =>
    if separator = "," then do
      let first ← element? token
      let more ← elements? rest
      some (first :: more)
    else none

/-- The elements of the array of this name, if the line defines it. -/
def arrayOf? (name line : String) : Option (List (Option String)) := do
  let text ← between? ("inline const char* const " ++ name ++ "[] = \x7b") "\x7d;" line
  elements? (Declaration.tokens text)

/-- The elements of the array of this name, among the lines of a file. -/
def arrayIn? (ls : List String) (name : String) : Option (List (Option String)) :=
  ls.findSome? (arrayOf? name)

/-! ## Running it -/

/-- The text that a pointer to its first character stands for: it ends at the first null
character. -/
def untilNull (s : String) : String :=
  String.ofList (s.toList.takeWhile (· ≠ '\x00'))

/-- A name equals an operand, given the element that a loop has come to. -/
def Operand.equals? (name : String) (current : Option String) : Operand → Option Bool
  | .literal text => some (decide (untilNull name = untilNull text))
  | .element => current.map fun text => decide (untilNull name = untilNull text)

/-- The name equals one of the operands. -/
def equalsAny? (name : String) (current : Option String) : List Operand → Option Bool
  | [] => some false
  | operand :: rest => do
    if ← operand.equals? name current then some true else equalsAny? name current rest

/-- The name equals one of the operands at an element before the null pointer. A loop must not run
past the end of its array. -/
def walk? (name : String) (operands : List Operand) : List (Option String) → Option Bool
  | [] => none
  | none :: _ => some false
  | some text :: rest => do
    if ← equalsAny? name (some text) operands then some true else walk? name operands rest

/-- The answer of statements, which must not end without one. -/
def run? (array? : String → Option (List (Option String))) (name : String) :
    List Statement → Option Bool
  | [] => none
  | .answer yes :: _ => some yes
  | .answerIf operand :: rest => do
    if ← operand.equals? name none then some true else run? array? name rest
  | .walk array operands :: rest => do
    let elements ← array? array
    if ← walk? name operands elements then some true else run? array? name rest

/-- The answer of a function about a name, among the lines of a file. -/
def answer? (ls : List String) (function name : String) : Option Bool := do
  let body ← statements? none
    (below ("inline bool " ++ function ++ "(const char* typeName) \x7b") "\x7d" ls)
  run? (arrayIn? ls) name body

/-! ## The lines of the check -/

/-- The operand of a literal is its text. -/
theorem Operand.ofText_quote (s : String) : Operand.ofText? (quote s) = some (.literal s) := by
  have hne : quote s ≠ "*it" := by
    rw [ne_eq, ← String.toList_inj, toList_quote]
    intro h
    cases (List.cons.inj h).1
  rw [Operand.ofText?, if_neg hne, literalText_quote]
  rfl

theorem element_quote (s : String) : element? (quote s) = some (some s) := by
  have hne : quote s ≠ "nullptr" := by
    rw [ne_eq, ← String.toList_inj, toList_quote]
    intro h
    cases (List.cons.inj h).1
  rw [element?, if_neg hne, literalText_quote]
  rfl

/-- The names of an array, each with a comma behind it. -/
def arrayNames (names : List String) : String :=
  String.join (names.map fun name => quote name ++ ", ")

theorem texts_arrayNames (names : List String) (before : Bool) :
    (Token.pieces before (arrayNames names ++ "nullptr ").toList).map Piece.text =
      names.flatMap (fun name => [quote name, ","]) ++ ["nullptr"] := by
  induction names generalizing before with
  | nil =>
    have hnullptr : Token.IsWord "nullptr".toList := by decide
    have hends : ∀ c ∈ [' '].head?, Reads.endsWord c = true := by decide
    have hword := Token.pieces_word hnullptr hends before
    rw [Token.pieces_of_blanks Token.isAsciiBlank_space] at hword
    exact congrArg (List.map Piece.text) hword
  | cons name names ih =>
    have htext : (arrayNames (name :: names) ++ "nullptr ").toList =
        (quote name).toList ++ ',' :: ' ' :: (arrayNames names ++ "nullptr ").toList := by
      simp [arrayNames]
    rw [htext, pieces_quote, Token.pieces_mark (c := ',') rfl, Token.pieces_space, List.map_cons,
      List.map_cons, Piece.map_text_indent, ih]
    rfl

theorem elements_texts (names : List String) :
    elements? (names.flatMap (fun name => [quote name, ","]) ++ ["nullptr"]) =
      some (names.map some ++ [none]) := by
  induction names with
  | nil => decide
  | cons name names ih =>
    obtain ⟨t, ts, hmore⟩ : ∃ t ts,
        names.flatMap (fun name => [quote name, ","]) ++ ["nullptr"] = t :: ts :=
      List.exists_cons_of_ne_nil (by simp)
    rw [List.flatMap_cons, List.append_assoc, hmore, List.cons_append, List.singleton_append,
      elements?, if_pos rfl, ← hmore, ih, element_quote]
    rfl

theorem elements_arrayNames (names : List String) :
    elements? (Declaration.tokens (" " ++ (arrayNames names ++ "nullptr "))) =
      some (names.map some ++ [none]) := by
  have hlex : (Token.lex (" " ++ (arrayNames names ++ "nullptr "))).map Token.piece =
      Token.pieces true (" " ++ (arrayNames names ++ "nullptr ")).toList :=
    Token.map_piece_lexFrom _ _
  have hblank := Token.pieces_blanks Token.isAsciiBlank_space true
    (arrayNames names ++ "nullptr ").toList
  have htexts : Declaration.tokens (" " ++ (arrayNames names ++ "nullptr ")) =
      (Token.pieces true (" " ++ (arrayNames names ++ "nullptr ")).toList).map Piece.text := by
    rw [← hlex, Declaration.tokens, List.map_map]
    rfl
  rw [htexts, String.toList_append, show " ".toList = [' '] from rfl, hblank,
    Piece.map_text_indent, texts_arrayNames, elements_texts]

theorem ofLine_indented {body : String} (h : startsWith " " body = false) :
    FunctionLine.ofLine? ("    " ++ body) = FunctionLine.ofText? body := by
  have hdrop : ("    " ++ body).toList.dropWhile (· = ' ') = body.toList := by
    rw [String.toList_append, List.dropWhile_append_of_pos (by decide)]
    cases hcs : body.toList with
    | nil => rfl
    | cons c cs =>
      refine List.dropWhile_cons_of_neg fun hc => ?_
      rw [startsWith, hcs, of_decide_eq_true hc] at h
      cases h
  rw [FunctionLine.ofLine?, hdrop, String.ofList_toList]

theorem between_eq_none {front back line : String} (h : startsWith front line = false) :
    between? front back line = none := by
  refine Option.eq_none_iff_forall_ne_some.2 fun text hsome => ?_
  rw [between_eq_some_iff, String.append_assoc] at hsome
  rw [← hsome, startsWith_append] at h
  cases h

theorem between_eq_none_of_suffix {front back other line : String}
    (h : other.toList <:+ line.toList) (hback : ¬back.toList <:+ other.toList)
    (hother : ¬other.toList <:+ back.toList) : between? front back line = none := by
  refine Option.eq_none_iff_forall_ne_some.2 fun text hsome => ?_
  rw [between_eq_some_iff] at hsome
  have hsuffix : back.toList <:+ line.toList := by
    rw [← hsome, String.toList_append]
    exact List.suffix_append ..
  exact (List.suffix_or_suffix_of_suffix hsuffix h).elim hback hother

/-- The line that compares the name with a literal. -/
theorem ofLine_literal (name : String) : FunctionLine.ofLine?
    ("    if (std::strcmp(typeName, " ++ quote name ++ ") == 0) return true;") =
      some (.answerIf (.literal name)) := by
  have hsplit : ∀ s : String, "    if (std::strcmp(typeName, " ++ s =
      "    " ++ ("if (std::strcmp(typeName, " ++ s) := fun s => by
    rw [← String.append_assoc]
    rfl
  have hbetween : between? "if (std::strcmp(typeName, " ") == 0) return true;"
      ("if (std::strcmp(typeName, " ++ (quote name ++ ") == 0) return true;")) =
        some (quote name) :=
    between_eq_some_iff.2 String.append_assoc
  have hstarts := startsWith_append "if (std::strcmp(typeName, "
    (quote name ++ ") == 0) return true;")
  rw [String.append_assoc, hsplit,
    ofLine_indented (startsWith_eq_false hstarts (by decide) (by decide)), FunctionLine.ofText?,
    if_neg (ne_of_startsWith hstarts (by decide)),
    if_neg (ne_of_startsWith hstarts (by decide)), if_neg (ne_of_startsWith hstarts (by decide)),
    hbetween]
  simp [Operand.ofText_quote]

/-- The line that opens a loop over an array. -/
theorem ofLine_opens (array : String) : FunctionLine.ofLine?
    ("    for (const char* const* it = " ++ array ++ "; *it != nullptr; ++it) \x7b") =
      some (.opens array) := by
  have hsplit : ∀ s : String, "    for (const char* const* it = " ++ s =
      "    " ++ ("for (const char* const* it = " ++ s) := fun s => by
    rw [← String.append_assoc]
    rfl
  have hbetween : between? "for (const char* const* it = " "; *it != nullptr; ++it) \x7b"
      ("for (const char* const* it = " ++ (array ++ "; *it != nullptr; ++it) \x7b")) =
        some array :=
    between_eq_some_iff.2 String.append_assoc
  have hstarts := startsWith_append "for (const char* const* it = "
    (array ++ "; *it != nullptr; ++it) \x7b")
  rw [String.append_assoc, hsplit,
    ofLine_indented (startsWith_eq_false hstarts (by decide) (by decide)), FunctionLine.ofText?,
    if_neg (ne_of_startsWith hstarts (by decide)),
    if_neg (ne_of_startsWith hstarts (by decide)), if_neg (ne_of_startsWith hstarts (by decide)),
    between_eq_none (startsWith_eq_false hstarts (by decide) (by decide)), hbetween]
  rfl

namespace Tables

variable {r : Resolved} (runtime : String)

/-- The statements of the check. -/
def isAStatements (r : Resolved) : List Statement :=
  [.answerIf (.literal r.container.name), .walk (r.container.globalName .ancestors) [.element],
    .answer false]

/-- The lines of the function, between its heading and its closing brace. -/
def isABody (r : Resolved) : List String :=
  ["    if (std::strcmp(typeName, \"" ++ r.container.name ++ "\") == 0) return true;",
    "    for (const char* const* it = " ++ r.container.globalName .ancestors
      ++ "; *it != nullptr; ++it) \x7b",
    "        if (std::strcmp(typeName, *it) == 0) return true;",
    "    \x7d",
    "    return false;"]

theorem statements_isABody (hname : IsIdentifier r.container.name) :
    statements? none (isABody r) = some (isAStatements r) := by
  have hliteral := ofLine_literal r.container.name
  have hquote : "    if (std::strcmp(typeName, " ++ quote r.container.name
      ++ ") == 0) return true;" =
        "    if (std::strcmp(typeName, \"" ++ r.container.name ++ "\") == 0) return true;" := by
    rw [quote_of_isIdentifier hname, ← String.toList_inj]
    simp
  have helement : FunctionLine.ofLine? "        if (std::strcmp(typeName, *it) == 0) return true;" =
      some (.answerIf .element) := by decide
  have hcloses : FunctionLine.ofLine? "    \x7d" = some .closes := by decide
  have hanswer : FunctionLine.ofLine? "    return false;" = some (.answer false) := by decide
  rw [hquote] at hliteral
  simp [isABody, statements?, hliteral, ofLine_opens, helement, hcloses, hanswer, isAStatements]

/-! ## The section of a container -/

/-- The lines above the check. -/
def linesAbove (runtime : String) (r : Resolved) : List String :=
  tablesLines runtime r ++ accessorLines runtime r

theorem inlinedLines_eq (hkind : r.container.kind ≠ .enum) : inlinedLines runtime r =
    linesAbove runtime r ++ "" :: heading runtime r .ancestors :: heading runtime r .isA ::
      (isABody r ++ ["\x7d"]) :=
  inlinedLines_of_ne_enum runtime hkind

theorem filter_linesAbove (r : Resolved) : (linesAbove runtime r).filter isDefinition =
    [.properties, .propertyCount, .functions, .functionCount].map (heading runtime r)
      ++ (memberHeadings r.container
        ++ [heading runtime r .getProperty, heading runtime r .setProperty]) := by
  rw [linesAbove, List.filter_append, filter_tablesLines, filter_accessorLines]

/-- Two lines that end in different ways. -/
theorem ne_of_suffix {l m back back' : String} (hl : back.toList <:+ l.toList)
    (hm : back'.toList <:+ m.toList) (h : ¬back.toList <:+ back'.toList)
    (h' : ¬back'.toList <:+ back.toList) : l ≠ m := by
  rintro rfl
  exact (List.suffix_or_suffix_of_suffix hl hm).elim h h'

theorem suffix_append (front back : String) : back.toList <:+ (front ++ back).toList := by
  rw [String.toList_append]
  exact List.suffix_append ..

theorem suffix_setHeading (front typeName : String) :
    "value) \x7b".toList <:+ (front ++ setParameters typeName ++ ") \x7b").toList := by
  have hend : front ++ setParameters typeName ++ ") \x7b" =
      front ++ typeName ++ "* self, std::size_t index, const void* " ++ "value) \x7b" := by
    simp [setParameters, String.append_assoc]
  rw [hend]
  exact suffix_append ..

/-- The accessors that the generated-body macro declares start like the plain ones. -/
theorem memberHeadings_cases {h : String} (hmem : h ∈ memberHeadings r.container) :
    startsWith "inline void* " h = true ∨
      startsWith "inline bool " h = true ∧ "value) \x7b".toList <:+ h.toList := by
  unfold memberHeadings at hmem
  split at hmem
  · simp only [List.mem_cons, List.not_mem_nil, or_false] at hmem
    rcases hmem with rfl | rfl
    · refine .inl ?_
      unfold memberGetHeading
      simp only [String.append_assoc]
      exact startsWith_append ..
    · refine .inr ⟨?_, suffix_setHeading _ _⟩
      unfold memberSetHeading
      simp only [String.append_assoc]
      exact startsWith_append ..
  · cases hmem

theorem suffix_isA (r : Resolved) :
    "typeName) \x7b".toList <:+ (heading runtime r .isA).toList := by
  have hsplit : "(const char* typeName) \x7b" = "(const char* " ++ "typeName) \x7b" := by decide
  unfold heading
  dsimp only
  rw [hsplit, ← String.append_assoc]
  exact suffix_append ..

/-- The heading of the check stands nowhere above it. -/
theorem heading_isA_notMem (r : Resolved) :
    heading runtime r .isA ∉ linesAbove runtime r ++ ["", heading runtime r .ancestors] := by
  have hstarts := startsWith_heading runtime r .isA
  have hother : ∀ g, startsWith (opening g) "inline bool " = false →
      startsWith "inline bool " (opening g) = false →
        heading runtime r .isA ≠ heading runtime r g :=
    fun g hg hg' => ne_of_startsWith hstarts
      (startsWith_eq_false (startsWith_heading runtime r g) hg' hg)
  have hset : ∀ front typeName, heading runtime r .isA ≠
      front ++ setParameters typeName ++ ") \x7b" := fun front typeName =>
    ne_of_suffix (suffix_isA runtime r) (suffix_setHeading front typeName) (by decide) (by decide)
  rw [List.mem_append, not_or]
  constructor
  · refine notMem_of_filter_isDefinition (filter_linesAbove runtime r) (isDefinition_heading ..) ?_
    simp only [List.map_cons, List.map_nil, List.mem_append, List.mem_cons, List.not_mem_nil,
      or_false, not_or]
    refine ⟨⟨hother _ rfl rfl, hother _ rfl rfl, hother _ rfl rfl, hother _ rfl rfl⟩, ?_,
      hother _ rfl rfl, hset _ _⟩
    intro hmem
    rcases memberHeadings_cases hmem with hget | ⟨-, hend⟩
    · exact ne_of_startsWith hstarts (startsWith_eq_false hget (by decide) (by decide)) rfl
    · exact ne_of_suffix (suffix_isA runtime r) hend (by decide) (by decide) rfl
  · simp only [List.mem_cons, List.not_mem_nil, or_false, not_or]
    exact ⟨ne_of_startsWith hstarts (by decide), hother .ancestors rfl rfl⟩

theorem below_isA (hkind : r.container.kind ≠ .enum) :
    below (heading runtime r .isA) "\x7d" (inlinedLines runtime r) = isABody r := by
  have hlines : inlinedLines runtime r =
      (linesAbove runtime r ++ ["", heading runtime r .ancestors]) ++ heading runtime r .isA ::
        (isABody r ++ "\x7d" :: []) := by
    rw [inlinedLines_eq runtime hkind]
    simp
  rw [hlines]
  refine below_append (heading_isA_notMem runtime r) (notMem_of_startsWith_blank ?_ (by decide)) _
  have hblank : ∀ front rest : String, startsWith " " front = true →
      startsWith " " (front ++ rest) = true := fun front rest h =>
    startsWith_trans h (startsWith_append front rest)
  simp only [isABody, List.mem_cons, List.not_mem_nil, or_false]
  rintro l (rfl | rfl | rfl | rfl | rfl)
  · rw [String.append_assoc]
    exact hblank _ _ (by decide)
  · rw [String.append_assoc]
    exact hblank _ _ (by decide)
  all_goals decide

/-- The array of the check holds the names of the ancestors and a null pointer. -/
theorem arrayOf_heading (hnames : ∀ name ∈ r.ancestorNames, IsIdentifier name) :
    arrayOf? (r.container.globalName .ancestors) (heading runtime r .ancestors) =
      some (r.ancestorNames.map some ++ [none]) := by
  have hjoin : r.ancestorNames.map (fun base => "\"" ++ base ++ "\", ") =
      r.ancestorNames.map fun name => quote name ++ ", " :=
    List.map_congr_left fun name hname => by
      rw [quote_of_isIdentifier (hnames name hname), ← String.toList_inj]
      simp
  have hheading : heading runtime r .ancestors =
      "inline const char* const " ++ r.container.globalName .ancestors ++ "[] = \x7b"
        ++ (" " ++ (arrayNames r.ancestorNames ++ "nullptr ")) ++ "\x7d;" := by
    have hopen : "[] = \x7b " = "[] = \x7b" ++ " " := by decide
    have hclose : "nullptr \x7d;" = "nullptr " ++ "\x7d;" := by decide
    unfold heading
    dsimp only
    rw [hjoin, hopen, hclose, arrayNames]
    simp only [String.append_assoc]
  have hbetween : between?
      ("inline const char* const " ++ r.container.globalName .ancestors ++ "[] = \x7b") "\x7d;"
      (heading runtime r .ancestors) = some (" " ++ (arrayNames r.ancestorNames ++ "nullptr ")) :=
    between_eq_some_iff.2 hheading.symm
  rw [arrayOf?, hbetween]
  exact elements_arrayNames r.ancestorNames

/-- No line above the check defines an array of strings. -/
theorem arrayOf_eq_none {l : String} (h : l ∈ linesAbove runtime r) (name : String) :
    arrayOf? name l = none := by
  by_cases hstarts : startsWith "inline const char* const " l = true
  · -- such a line starts a definition, and those above the check that do so go on behind it
    have hinline : startsWith "inline " "inline const char* const " = true := by decide
    have hdef : isDefinition l = true := startsWith_trans hinline hstarts
    have hmem : l ∈ (linesAbove runtime r).filter isDefinition := List.mem_filter.2 ⟨h, hdef⟩
    have hother : ∀ front, startsWith front l = true →
        startsWith "inline const char* const " front = false →
        startsWith front "inline const char* const " = false → False := fun front hl hf hf' =>
      ne_of_startsWith hstarts (startsWith_eq_false hl hf hf') rfl
    have htable : ∀ descriptor items, l = tableHeading runtime descriptor items →
        arrayOf? name l = none := by
      rintro descriptor items rfl
      have hopens : "[] = \x7b".toList <:+ (tableHeading runtime descriptor items).toList :=
        suffix_append ..
      rw [arrayOf?, between_eq_none_of_suffix hopens (by decide) (by decide)]
      rfl
    rw [filter_linesAbove] at hmem
    simp only [List.map_cons, List.map_nil, List.mem_append, List.mem_cons, List.not_mem_nil,
      or_false] at hmem
    obtain (rfl | rfl | rfl | rfl) | hmember | rfl | rfl := hmem
    · exact htable _ _ rfl
    · exact (hother _ (startsWith_heading runtime r .propertyCount) rfl rfl).elim
    · exact htable _ _ rfl
    · exact (hother _ (startsWith_heading runtime r .functionCount) rfl rfl).elim
    · rcases memberHeadings_cases hmember with hget | ⟨hset, -⟩
      · exact (hother _ hget rfl rfl).elim
      · exact (hother _ hset rfl rfl).elim
    · exact (hother _ (startsWith_heading runtime r .getProperty) rfl rfl).elim
    · exact (hother _ (startsWith_heading runtime r .setProperty) rfl rfl).elim
  · rw [arrayOf?, between_eq_none]
    · rfl
    · rw [Bool.eq_false_iff, ne_eq]
      intro hfront
      refine hstarts (startsWith_trans ?_ hfront)
      rw [String.append_assoc]
      exact startsWith_append ..

theorem arrayIn_inlinedLines (hkind : r.container.kind ≠ .enum)
    (hnames : ∀ name ∈ r.ancestorNames, IsIdentifier name) :
    arrayIn? (inlinedLines runtime r) (r.container.globalName .ancestors) =
      some (r.ancestorNames.map some ++ [none]) := by
  have habove : (linesAbove runtime r).findSome? (arrayOf? (r.container.globalName .ancestors)) =
      none := List.findSome?_eq_none_iff.2 fun l hl => arrayOf_eq_none runtime hl _
  have hempty : arrayOf? (r.container.globalName .ancestors) "" = none := by
    rw [arrayOf?, between_eq_none]
    · rfl
    · rw [Bool.eq_false_iff, ne_eq, startsWith_iff, String.append_assoc]
      intro h
      simpa using List.prefix_nil.1 h
  rw [arrayIn?, inlinedLines_eq runtime hkind, List.findSome?_append, habove, List.findSome?_cons,
    hempty, List.findSome?_cons, arrayOf_heading runtime hnames]
  rfl

/-! ## What the check answers -/

theorem untilNull_of_isIdentifier {name : String} (h : IsIdentifier name) :
    untilNull name = name := by
  have hnone : ∀ c ∈ name.toList, decide (c ≠ '\x00') = true := by
    intro c hc
    refine decide_eq_true ?_
    rintro rfl
    exact absurd (Token.isWordChar_of_mem h hc) (by decide)
  rw [untilNull, List.takeWhile_eq_self_iff.2 hnone, String.ofList_toList]

/-- The loop finds a name among the names of its array. -/
theorem walk_names (name : String) {names : List String} (h : ∀ n ∈ names, IsIdentifier n) :
    walk? name [.element] (names.map some ++ [none]) = some (decide (untilNull name ∈ names)) := by
  induction names with
  | nil => rfl
  | cons n names ih =>
    obtain ⟨hn, hnames⟩ := List.forall_mem_cons.1 h
    have hequals : equalsAny? name (some n) [.element] = some (decide (untilNull name = n)) := by
      by_cases hname : untilNull name = n <;>
        simp [equalsAny?, Operand.equals?, untilNull_of_isIdentifier hn, hname]
    rw [List.map_cons, List.cons_append, walk?, hequals, ih hnames]
    by_cases hname : untilNull name = n <;> simp [hname]

/-- The check answers whether the container or one of its ancestors has a name. -/
theorem answer_inlinedLines (hkind : r.container.kind ≠ .enum)
    (hname : IsIdentifier r.container.name) (hnames : ∀ n ∈ r.ancestorNames, IsIdentifier n)
    (q : String) :
    answer? (inlinedLines runtime r) (r.container.globalName .isA) q =
      some (r.isA (untilNull q)) := by
  have hbody : below
      ("inline bool " ++ r.container.globalName .isA ++ "(const char* typeName) \x7b") "\x7d"
      (inlinedLines runtime r) = isABody r := below_isA runtime hkind
  have hisA : r.isA (untilNull q) =
      (decide (untilNull q = r.container.name) || decide (untilNull q ∈ r.ancestorNames)) := by
    have hany : r.ancestors.any (·.name = untilNull q) =
        decide (untilNull q ∈ r.ancestorNames) := by
      rw [Bool.eq_iff_iff, decide_eq_true_eq, Resolved.ancestorNames, List.mem_eraseDups]
      simp
    rw [Resolved.isA, hany, decide_eq_decide.2 eq_comm]
  rw [answer?, hbody, statements_isABody hname, hisA]
  have hrun : run? (arrayIn? (inlinedLines runtime r)) q (isAStatements r) =
      some (decide (untilNull q = r.container.name) || decide (untilNull q ∈ r.ancestorNames)) := by
    rw [isAStatements, run?, Operand.equals?, untilNull_of_isIdentifier hname, run?,
      arrayIn_inlinedLines runtime hkind hnames, run?]
    by_cases hown : untilNull q = r.container.name
    · simp [hown]
    · by_cases hmem : untilNull q ∈ r.ancestorNames <;>
        simp [hown, walk_names q hnames, hmem]
  exact hrun

end Tables

open Tables Lineage in
/-- **The generated check for ancestors agrees with resolution.** Before its null pointer, the array
lists the names of the ancestors, each once and in the order in which they first occur among them.
The function answers with yes exactly for the names that the resolved container answers to: its own
and those of the containers that one or more bases lead to. -/
theorem generated_isA (options : GenerationOptions) {cs : List Container} {external : List String}
    {rs : List Resolved} (h : resolve cs external = .ok rs) {i : Nat} {r : Resolved}
    (hr : rs[i]? = some r) (hkind : r.container.kind ≠ .enum)
    (hname : IsIdentifier r.container.name) (hnames : ∀ a ∈ r.ancestors, IsIdentifier a.name) :
    Tables.generate options r .inlined = lines (inlinedLines options.runtimeNamespace r) ∧
      (∃ names, FirstOccurrences names (r.ancestors.map (·.name)) ∧
        arrayIn? (inlinedLines options.runtimeNamespace r) (r.container.symbol ++ "_Ancestors") =
          some (names.map some ++ [none])) ∧
      (∀ q, answer? (inlinedLines options.runtimeNamespace r) (r.container.symbol ++ "_IsA") q =
        some (r.isA (untilNull q))) ∧
      ∀ q, r.isA q = true ↔ r.container.name = q ∨
        ∃ j c, Relation.TransGen (ResolvesTo cs external) i j ∧ cs[j]? = some c ∧ c.name = q := by
  have hall : ∀ n ∈ r.ancestorNames, IsIdentifier n := by
    intro n hn
    obtain ⟨a, ha, rfl⟩ := List.mem_map.1 (List.mem_eraseDups.1 hn)
    exact hnames a ha
  have hglobal : ∀ g : Global, r.container.globalName g = r.container.symbol ++ ("_" ++ g.word) :=
    fun g => String.append_assoc
  have harray := arrayIn_inlinedLines options.runtimeNamespace hkind hall
  have hanswer := answer_inlinedLines options.runtimeNamespace hkind hname hall
  rw [hglobal] at harray hanswer
  exact ⟨generate_inlined options r, ⟨_, firstOccurrences_eraseDups _, harray⟩, hanswer,
    fun q => isA_iff h hr q⟩

/-- The tip of a diamond reaches its top in two ways, and lists it once. -/
theorem generated_isA_diamond :
    ∃ r rest, resolve Lineage.diamond ["enable"] = .ok (r :: rest) ∧
      r.container.kind ≠ .enum ∧ IsIdentifier r.container.name ∧
      (∀ a ∈ r.ancestors, IsIdentifier a.name) ∧
      (∃ names, FirstOccurrences names ["Left", "Top", "Right", "Top"] ∧
        arrayIn? (Tables.inlinedLines "::reflect" r) "Tip_Ancestors" =
          some (names.map some ++ [none])) ∧
      ∀ q, answer? (Tables.inlinedLines "::reflect" r) "Tip_IsA" q =
        some (r.isA (untilNull q)) := by
  obtain ⟨r, rest, h, hfacts⟩ : ∃ r rest, resolve Lineage.diamond ["enable"] = .ok (r :: rest) ∧
      r.container.kind = .class ∧ r.container.name = "Tip" ∧ r.container.symbol = "Tip" ∧
        r.ancestors.map (·.name) = ["Left", "Top", "Right", "Top"] :=
    ⟨_, _, by cbv, rfl, rfl, by decide, rfl⟩
  obtain ⟨hclass, htip, hsymbol, hancestors⟩ := hfacts
  have hkind : r.container.kind ≠ .enum := by simp [hclass]
  have hname : IsIdentifier r.container.name := by
    rw [htip]
    decide
  have hnames : ∀ a ∈ r.ancestors, IsIdentifier a.name := by
    have hall : ∀ n ∈ ["Left", "Top", "Right", "Top"], IsIdentifier n := by decide
    exact fun a ha => hall a.name (hancestors ▸ List.mem_map_of_mem ha)
  obtain ⟨-, ⟨names, hfirst, harray⟩, hanswer, -⟩ :=
    generated_isA {} h (i := 0) rfl hkind hname hnames
  rw [hsymbol] at harray hanswer
  exact ⟨r, rest, h, hkind, hname, hnames, ⟨names, hancestors ▸ hfirst, harray⟩, hanswer⟩

end HeaderReflection
