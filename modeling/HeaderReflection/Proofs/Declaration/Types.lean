import HeaderReflection.Proofs.Declaration.TypeNames

/-!
# Types read back

* `TypeRef.Worded.spells_render`: the text of a type spells the type's tokens.
* `TypeRef.Worded.leads_tokens`: brackets are closed in them, and nothing that separates
  declarations stands outside brackets.
* `TypeRef.Canonical.ofTokens_tokens`: the type that the tokens of a canonical type spell is the
  type.
-/

namespace HeaderReflection

open Declaration
open Text (isAsciiDigit isAsciiAlphanumeric)

/-- A whole number. -/
def IsDigits (s : String) : Prop :=
  s.toList ≠ [] ∧ ∀ d ∈ s.toList, isAsciiDigit d = true

instance : DecidablePred IsDigits :=
  fun _ => inferInstanceAs (Decidable (_ ∧ _))

/-- The name of a type that is spelled by identifiers or, among template arguments, by a whole
number. -/
def IsWordedName (isArgument : Bool) (name : String) : Prop :=
  (∃ n : TypeName, n.Worded ∧ n.text = name) ∨ isArgument = true ∧ IsDigits name

/-- The name that a type can have: the text of a canonical name or, among template arguments, a
whole number. -/
def IsTypeName (others : List String) (isArgument : Bool) (name : String) : Prop :=
  (∃ n : TypeName, n.Canonical others ∧ n.text = name) ∨ isArgument = true ∧ IsDigits name

/-- A type whose names are spelled by identifiers. -/
inductive TypeRef.Worded : Bool → TypeRef → Prop
  | intro {t : TypeRef} {isArgument : Bool} (name : IsWordedName isArgument t.name)
      (arguments : ∀ a ∈ t.arguments, Worded true a) : Worded isArgument t

/-- A type whose text is read as the type. None of the given words occurs in it. -/
inductive TypeRef.Canonical (others : List String) : Bool → TypeRef → Prop
  | intro {t : TypeRef} {isArgument : Bool} (name : IsTypeName others isArgument t.name)
      (arguments : ∀ a ∈ t.arguments, Canonical others true a) : Canonical others isArgument t

theorem tokens_of_isDigits {name : String} (h : IsDigits name) : tokens name = [name] :=
  tokens_of_spells (Spells.digits h.1 h.2)

namespace IsWordedName

variable {isArgument : Bool} {name : String}

theorem spells (h : IsWordedName isArgument name) : Spells name.toList (tokens name) isBreak := by
  rcases h with ⟨n, hn, rfl⟩ | ⟨-, hdigits⟩
  · rw [hn.tokens_text]
    exact hn.spells_text.weaken fun c hc => (ends_of_isBreak hc).1
  · rw [tokens_of_isDigits hdigits]
    exact (Spells.digits hdigits.1 hdigits.2).weaken fun c hc => (ends_of_isBreak hc).2.1

theorem ne_empty (h : IsWordedName isArgument name) : name ≠ "" := by
  rcases h with ⟨n, hn, rfl⟩ | ⟨-, hdigits⟩
  · exact hn.text_ne_empty
  · rintro rfl
    exact hdigits.1 rfl

theorem tokens_ne_nil (h : IsWordedName isArgument name) : tokens name ≠ [] := by
  obtain ⟨ps, hps, htexts⟩ := h.spells
  rw [← htexts]
  intro hnil
  exact toList_ne_nil h.ne_empty (hps.eq_nil_iff.1 (List.map_eq_nil_iff.1 hnil))

/-- No token of a name is a delimiter. -/
theorem not_mem_delimiters (h : IsWordedName isArgument name) {t : String}
    (ht : t ∈ tokens name) : t ∉ delimiters := by
  have hnone : ∀ m ∈ delimiters, m ≠ "::" ∧ ¬IsIdentifier m ∧ ¬IsDigits m := by decide
  intro hm
  obtain ⟨hscope, hid, hdigits⟩ := hnone t hm
  rcases h with ⟨n, hn, rfl⟩ | ⟨-, hd⟩
  · rw [hn.tokens_text] at ht
    rcases TypeName.mem_tokens ht with rfl | ⟨w, hw, hs⟩
    · exact hscope rfl
    · exact hid ((hn.isIdentifier w hw).2 t hs)
  · rw [tokens_of_isDigits hd, List.mem_singleton] at ht
    exact hdigits (ht ▸ hd)

end IsWordedName

namespace IsTypeName

variable {others : List String} {isArgument : Bool} {name : String}

theorem worded (h : IsTypeName others isArgument name) : IsWordedName isArgument name :=
  h.imp_left fun ⟨n, hn, htext⟩ => ⟨n, hn.worded, htext⟩

/-- A name is made of words with spaces between them, each of which is made of identifiers with
scope marks between them. -/
theorem of_words (words : List (List String)) (hne : words ≠ [])
    (h : ∀ w ∈ words, w ≠ [] ∧ ∀ s ∈ w, IsPlainWord others s) :
    IsTypeName others isArgument (" ".intercalate (words.map ("::".intercalate ·))) :=
  .inl ⟨⟨false, words⟩, ⟨hne, h⟩, by simp [TypeName.text]⟩

/-- A whole number is a name of its own. -/
theorem collectType_digits (h : IsDigits name) {ty : TypeRef} (hty : ty.name = "")
    (rest : List String) :
    collectType ty false (name :: rest) = collectType { ty with name } false rest := by
  have hnone : ∀ s ∈ "::" :: "*" :: "&" :: delimiters ++ reservedWords, ¬IsDigits s := by
    decide
  have hname : isNamePart name = true := by
    have hall : (name.toList.all fun c => isAsciiAlphanumeric c || c == '.') = true :=
      List.all_eq_true.2 fun c hc => by simp [isAsciiAlphanumeric, h.2 c hc]
    simp [isNamePart, hall]
  rw [collectType_part (fun hm => hnone name (List.mem_append_left _ hm) h)
    (fun hm => hnone name (List.mem_append_right _ hm) h) hname]
  simp [extendName, hty]

theorem collectType_tokens (h : IsTypeName others isArgument name) {ty : TypeRef}
    (hty : ty.name = "") (rest : List String) :
    collectType ty false (tokens name ++ rest) = collectType { ty with name } false rest := by
  rcases h with ⟨n, hn, rfl⟩ | ⟨-, hdigits⟩
  · rw [hn.worded.tokens_text, hn.collectType_tokens hty]
  · rw [tokens_of_isDigits hdigits, List.singleton_append, collectType_digits hdigits hty]

theorem mem_tokens (h : IsTypeName others isArgument name) {t : String} (ht : t ∈ tokens name) :
    t = "::" ∨ IsPlainWord others t ∨ IsDigits t := by
  rcases h with ⟨n, hn, rfl⟩ | ⟨-, hdigits⟩
  · rw [hn.worded.tokens_text] at ht
    exact (hn.mem_tokens ht).imp_right .inl
  · rw [tokens_of_isDigits hdigits, List.mem_singleton] at ht
    exact .inr (.inr (ht ▸ hdigits))

theorem getLast?_tokens (h : IsTypeName others isArgument name) :
    ∃ t ∈ (tokens name).getLast?, t ≠ "::" := by
  rcases h with ⟨n, hn, rfl⟩ | ⟨-, hdigits⟩
  · rw [hn.worded.tokens_text]
    obtain ⟨s, hs, hplain⟩ := hn.getLast?_tokens
    refine ⟨s, hs, ?_⟩
    rintro rfl
    exact absurd hplain.1 (by decide)
  · rw [tokens_of_isDigits hdigits]
    refine ⟨name, rfl, ?_⟩
    rintro rfl
    exact absurd hdigits (by decide)

end IsTypeName

/-! ## Tokens of a type -/

/-- The marks behind a type's name and arguments. -/
def suffixTokens (isPointer isReference isArray : Bool) : List String :=
  (if isPointer then ["*"] else []) ++ (if isReference then ["&"] else [])
    ++ (if isArray then ["[", "]"] else [])

namespace TypeRef

mutual

/-- The tokens of a type's text. -/
def tokens : TypeRef → List String
  | ⟨name, isConst, isPointer, isReference, isArray, arguments⟩ =>
    (if isConst then ["const"] else []) ++ Declaration.tokens name ++ argumentTokens arguments
      ++ suffixTokens isPointer isReference isArray

/-- The tokens of template arguments between angle brackets. -/
def argumentTokens : List TypeRef → List String
  | [] => []
  | first :: rest => "<" :: (first.tokens ++ restTokens rest ++ [">"])

/-- The tokens of template arguments with a comma before each. -/
def restTokens : List TypeRef → List String
  | [] => []
  | t :: rest => "," :: (t.tokens ++ restTokens rest)

end

theorem append_restTokens (t : TypeRef) (rest : List TypeRef) :
    t.tokens ++ restTokens rest = [","].intercalate ((t :: rest).map tokens) := by
  induction rest generalizing t with
  | nil => simp [restTokens]
  | cons next rest ih =>
    simp only [restTokens, ih, List.map_cons, List.intercalate_cons_cons]
    simp

theorem argumentTokens_cons (t : TypeRef) (rest : List TypeRef) :
    argumentTokens (t :: rest) = "<" :: ([","].intercalate ((t :: rest).map tokens) ++ [">"]) := by
  rw [argumentTokens, append_restTokens]

variable {others : List String} {isArgument : Bool} {t : TypeRef}

theorem tokens_eq (t : TypeRef) : t.tokens =
    (if t.isConst then ["const"] else []) ++ (Declaration.tokens t.name ++
      (argumentTokens t.arguments ++ suffixTokens t.isPointer t.isReference t.isArray)) := by
  obtain ⟨name, isConst, isPointer, isReference, isArray, arguments⟩ := t
  simp [tokens]

theorem Canonical.worded (h : t.Canonical others isArgument) : t.Worded isArgument := by
  induction h with
  | intro name _ ih => exact .intro name.worded ih

/-- The type that a word alone names. -/
theorem canonical_named {word : String} (h : IsPlainWord others word) :
    (named word).Canonical others isArgument := by
  have hname : IsTypeName others isArgument word := by
    simpa using IsTypeName.of_words [[word]] (by simp) (by simpa using h)
  exact .intro hname (by simp [named])

theorem Canonical.name_ne_empty (h : t.Canonical others isArgument) : t.name ≠ "" := by
  cases h with
  | intro name _ => exact name.worded.ne_empty

theorem Worded.tokens_ne_nil (h : t.Worded isArgument) : t.tokens ≠ [] := by
  cases h with
  | intro name _ =>
    rw [tokens_eq]
    intro hnil
    simp only [List.append_eq_nil_iff] at hnil
    exact name.tokens_ne_nil hnil.2.1

theorem Canonical.tokens_ne_nil (h : t.Canonical others isArgument) : t.tokens ≠ [] :=
  h.worded.tokens_ne_nil

theorem tokens_named {word : String} (h : IsIdentifier word) : (named word).tokens = [word] := by
  have hword : Declaration.tokens word = [word] := tokens_of_spells (Spells.word h)
  simp [tokens_eq, named, hword, argumentTokens, suffixTokens]

/-! ## Depths -/

/-- Weights for which the square brackets of types are brackets. Angle brackets may be brackets too,
or else commas must be no marks. -/
structure WeighsTypes (weight : String → Int) (mark : String → Prop) : Prop where
  plain : ∀ s, s ∉ delimiters → weight s = 0
  comma : weight "," = 0
  opening : weight "[" = 1
  closing : weight "]" = -1
  angles : weight "<" = 1 ∧ weight ">" = -1 ∨ weight "<" = 0 ∧ weight ">" = 0 ∧ ¬mark ","
  marks : ∀ s, mark s → s ∈ delimiters ∧ s ∉ ["[", "]", "<", ">"]

/-- The depths of declarations. -/
theorem WeighsTypes.declaration {mark : String → Prop}
    (h : ∀ s, mark s → s ∈ delimiters ∧ s ∉ ["[", "]", "<", ">"]) :
    WeighsTypes bracketDepth mark where
  plain s hs := by
    have hmem : ∀ m, m ∈ delimiters → s ≠ m := fun m hm he => hs (he ▸ hm)
    unfold bracketDepth
    rw [if_neg, if_neg]
    all_goals
      simp only [List.contains_eq_mem, List.mem_cons, List.not_mem_nil, or_false,
        decide_eq_true_eq, not_or]
      exact ⟨hmem _ (by decide), hmem _ (by decide), hmem _ (by decide), hmem _ (by decide)⟩
  comma := by decide
  opening := by decide
  closing := by decide
  angles := .inl (by decide)
  marks := h

variable {weight : String → Int} {mark : String → Prop}

theorem leads_argumentTokens (hw : WeighsTypes weight mark) {args : List TypeRef}
    (h : ∀ a ∈ args, Leads weight mark 0 a.tokens 0) :
    Leads weight mark 0 (argumentTokens args) 0 := by
  have hzero : (0 : Int) ≤ 0 := Int.le_refl 0
  have hmark : ∀ s ∈ ["[", "]", "<", ">"], ¬mark s := fun s hs hm => (hw.marks s hm).2 hs
  cases args with
  | nil => rfl
  | cons a rest =>
    rw [argumentTokens_cons]
    have hparts : ∀ part ∈ (a :: rest).map tokens, Leads weight mark 0 part 0 := by
      intro part hpart
      obtain ⟨b, hb, rfl⟩ := List.mem_map.1 hpart
      exact h b hb
    rcases hw.angles with ⟨hopen, hclose⟩ | ⟨hopen, hclose, hcomma⟩
    · have hinner : Leads weight (fun _ => False) 0
          ([","].intercalate ((a :: rest).map tokens)) 0 :=
        .intercalate hw.comma id fun part hpart => (hparts part hpart).weaken fun _ _ => False.elim
      exact .group hopen (hmark "<" (by decide)) hclose hinner
    · have hfirst : Leads weight mark 0 ["<"] 0 :=
        .plain hzero (by simpa using ⟨hopen, hmark "<" (by decide)⟩)
      have hlast : Leads weight mark 0 [">"] 0 :=
        .plain hzero (by simpa using ⟨hclose, hmark ">" (by decide)⟩)
      exact hfirst.append ((Leads.intercalate hw.comma hcomma hparts).append hlast)

theorem leads_suffixTokens (hw : WeighsTypes weight mark) (isPointer isReference isArray : Bool) :
    Leads weight mark 0 (suffixTokens isPointer isReference isArray) 0 := by
  have hmark : ∀ s, s ∉ delimiters → ¬mark s := fun s hs hm => hs (hw.marks s hm).1
  have hnone : Leads weight mark 0 [] 0 := rfl
  have hbrackets : Leads weight mark 0 ["[", "]"] 0 :=
    hnone.group hw.opening (fun hm => (hw.marks _ hm).2 (by decide)) hw.closing
  have hone : ∀ s ∉ delimiters, ∀ b : Bool,
      Leads weight mark 0 (if b then [s] else []) 0 := by
    intro s hs b
    cases b
    · rfl
    · exact .plain (Int.le_refl 0) (by simpa using ⟨hw.plain s hs, hmark s hs⟩)
  refine ((hone "*" (by decide) isPointer).append (hone "&" (by decide) isReference)).append ?_
  cases isArray
  · rfl
  · exact hbrackets

/-- Brackets are closed in a type's tokens, and nothing that separates declarations stands outside
brackets. -/
theorem Worded.leads_tokens (h : t.Worded isArgument) (hw : WeighsTypes weight mark) :
    Leads weight mark 0 t.tokens 0 := by
  induction h with
  | @intro t isArgument name _ ih =>
    have hplain : ∀ ts : List String, (∀ s ∈ ts, s ∉ delimiters) → Leads weight mark 0 ts 0 :=
      fun ts hts => .plain (Int.le_refl 0) fun s hs =>
        ⟨hw.plain s (hts s hs), fun hm => hts s hs (hw.marks s hm).1⟩
    rw [tokens_eq]
    refine .append (hplain _ ?_) (.append (hplain _ fun s hs => name.not_mem_delimiters hs)
      ((leads_argumentTokens hw ih).append (leads_suffixTokens hw ..)))
    cases t.isConst <;> decide

theorem Canonical.leads_tokens (h : t.Canonical others isArgument) (hw : WeighsTypes weight mark) :
    Leads weight mark 0 t.tokens 0 :=
  h.worded.leads_tokens hw

/-! ## Reading the tokens -/

theorem collectType_suffixTokens {ty : TypeRef} (hp : ty.isPointer = false)
    (hr : ty.isReference = false) (ha : ty.isArray = false) (p r a : Bool) (rest : List String) :
    collectType ty false (suffixTokens p r a ++ rest) =
      collectType { ty with isPointer := p, isReference := r, isArray := a } false rest := by
  have hpointer : ∀ (ty : TypeRef) rest, collectType ty false ("*" :: rest) =
      collectType { ty with isPointer := true } false rest := by
    intro ty rest
    rw [collectType]
    simp [extendType]
  have hreference : ∀ (ty : TypeRef) rest, collectType ty false ("&" :: rest) =
      collectType { ty with isReference := true } false rest := by
    intro ty rest
    rw [collectType]
    simp [extendType]
  have harray : ∀ (ty : TypeRef) rest, collectType ty false ("[" :: "]" :: rest) =
      collectType { ty with isArray := true } false rest := by
    intro ty rest
    have hclose : closeGroup 1 ("]" :: rest) = some (["]"], rest) := rfl
    rw [collectType]
    simp [skipGroup, hclose]
  obtain ⟨name, isConst, isPointer, isReference, isArray, arguments⟩ := ty
  obtain rfl : isPointer = false := hp
  obtain rfl : isReference = false := hr
  obtain rfl : isArray = false := ha
  cases p <;> cases r <;> cases a <;> simp [suffixTokens, hpointer, hreference, harray]

/-- Template arguments are read one by one. -/
theorem collectType_argumentTokens {ty : TypeRef} {args : List TypeRef}
    (hty : ty.arguments = []) (hargs : ∀ a ∈ args, a.Worded true) (rest : List String) :
    collectType ty false (argumentTokens args ++ rest) =
      collectType { ty with arguments := args.map fun a => ofTokens a.tokens } false rest := by
  cases args with
  | nil =>
    obtain ⟨name, isConst, isPointer, isReference, isArray, arguments⟩ := ty
    obtain rfl : arguments = [] := hty
    rw [argumentTokens, List.nil_append, List.map_nil]
  | cons a as =>
    have hparts : ∀ part ∈ (a :: as).map tokens, Leads bracketDepth (· = ",") 0 part 0 := by
      intro part hpart
      obtain ⟨b, hb, rfl⟩ := List.mem_map.1 hpart
      exact (hargs b hb).leads_tokens (.declaration (by rintro _ rfl; decide))
    have hinner : Leads bracketDepth (fun _ => False) 0
        ([","].intercalate ((a :: as).map tokens)) 0 :=
      .intercalate (by decide) id fun part hpart => (hparts part hpart).weaken fun _ _ => False.elim
    have hgroup := Declaration.closeGroup_group hinner ">" (by decide) rest
    have hsplit := Declaration.splitTop_intercalate (by simp) hparts
    have hfilter : ((a :: as).map tokens).filter (· ≠ []) = (a :: as).map tokens := by
      refine List.filter_eq_self.2 fun part hpart => ?_
      obtain ⟨b, hb, rfl⟩ := List.mem_map.1 hpart
      simpa using (hargs b hb).tokens_ne_nil
    have hmap : ((a :: as).map tokens).map (collectType {} false) =
        (a :: as).map fun a => ofTokens a.tokens := by
      rw [List.map_map]
      rfl
    rw [argumentTokens_cons, List.cons_append, List.append_assoc, List.singleton_append,
      collectType_angle hgroup, List.dropLast_concat, argumentParts, hsplit, hfilter, hmap]

theorem collectType_const (isConst : Bool) (rest : List String) :
    collectType {} false ((if isConst then ["const"] else []) ++ rest) =
      collectType { isConst } false rest := by
  cases isConst
  · rfl
  · rw [if_pos rfl, List.singleton_append, collectType]
    simp [extendType]

/-- What goes on behind a canonical type's tokens adds to the type. -/
theorem Canonical.collectType_tokens (h : t.Canonical others isArgument) (rest : List String) :
    collectType {} false (t.tokens ++ rest) = collectType t false rest := by
  induction h generalizing rest with
  | @intro t isArgument name harguments ih =>
    have hread : t.arguments.map (fun a => ofTokens a.tokens) = t.arguments := by
      refine (List.map_congr_left fun a ha => ?_).trans (List.map_id _)
      have hall := ih a ha []
      rwa [List.append_nil, collectType] at hall
    rw [tokens_eq, List.append_assoc, collectType_const, List.append_assoc,
      name.collectType_tokens rfl, List.append_assoc,
      collectType_argumentTokens ?_ fun a ha => (harguments a ha).worded, hread,
      collectType_suffixTokens ?_ ?_ ?_]
    · cases t
      rfl
    all_goals rfl

/-- The type that a canonical type's tokens spell is the type. -/
theorem Canonical.ofTokens_tokens (h : t.Canonical others isArgument) : ofTokens t.tokens = t := by
  have hall := h.collectType_tokens []
  rwa [List.append_nil, collectType] at hall

theorem mem_suffixTokens {p r a : Bool} {s : String} (h : s ∈ suffixTokens p r a) :
    s ∈ ["*", "&", "[", "]"] := by
  revert h
  cases p <;> cases r <;> cases a <;> simp [suffixTokens] <;> grind

theorem mem_restTokens {args : List TypeRef} {s : String} (h : s ∈ restTokens args) :
    s = "," ∨ ∃ a ∈ args, s ∈ a.tokens := by
  induction args with
  | nil => cases h
  | cons a args ih =>
    rw [restTokens] at h
    rcases List.mem_cons.1 h with rfl | h
    · exact .inl rfl
    · rcases List.mem_append.1 h with h | h
      · exact .inr ⟨a, List.mem_cons_self, h⟩
      · exact (ih h).imp_right fun ⟨b, hb, hs⟩ => ⟨b, List.mem_cons_of_mem _ hb, hs⟩

theorem mem_argumentTokens {args : List TypeRef} {s : String} (h : s ∈ argumentTokens args) :
    s ∈ ["<", ">", ","] ∨ ∃ a ∈ args, s ∈ a.tokens := by
  cases args with
  | nil => cases h
  | cons a args =>
    rw [argumentTokens] at h
    simp only [List.mem_cons, List.mem_append, List.not_mem_nil, or_false] at h ⊢
    rcases h with rfl | (h | h) | rfl
    · exact .inl (.inl rfl)
    · exact .inr ⟨a, .inl rfl, h⟩
    · rcases mem_restTokens h with rfl | ⟨b, hb, hs⟩
      · exact .inl (.inr (.inr rfl))
      · exact .inr ⟨b, .inr hb, hs⟩
    · exact .inl (.inr (.inl rfl))

/-- The tokens of a type: marks, the word `const`, parts of names and whole numbers. -/
theorem Canonical.mem_tokens (h : t.Canonical others isArgument) {s : String} (hs : s ∈ t.tokens) :
    s ∈ ["const", "::", "*", "&", "[", "]", "<", ">", ","] ∨ IsPlainWord others s ∨
      IsDigits s := by
  induction h with
  | @intro t isArgument name _ ih =>
    have hsub : ∀ l : List String, l ⊆ ["const", "::", "*", "&", "[", "]", "<", ">", ","] →
        s ∈ l → s ∈ ["const", "::", "*", "&", "[", "]", "<", ">", ","] ∨
          IsPlainWord others s ∨ IsDigits s := fun l hl h => .inl (hl h)
    rw [tokens_eq] at hs
    rcases List.mem_append.1 hs with hs | hs
    · refine hsub ["const"] (by decide) ?_
      split at hs
      · exact hs
      · cases hs
    rcases List.mem_append.1 hs with hs | hs
    · rcases name.mem_tokens hs with rfl | h
      · exact hsub ["::"] (by decide) List.mem_cons_self
      · exact .inr h
    rcases List.mem_append.1 hs with hs | hs
    · rcases mem_argumentTokens hs with h | ⟨a, ha, h⟩
      · exact hsub _ (by decide) h
      · exact ih a ha h
    · exact hsub _ (by decide) (mem_suffixTokens hs)

/-- A type other than a template argument is named by words. -/
theorem Canonical.exists_word (h : t.Canonical others false) :
    ∃ s ∈ t.tokens, IsPlainWord others s := by
  cases h with
  | intro name _ =>
    rcases name with ⟨n, hn, hname⟩ | ⟨hfalse, -⟩
    · obtain ⟨s, hs, hplain⟩ := hn.getLast?_tokens
      refine ⟨s, ?_, hplain⟩
      rw [tokens_eq, ← hname, hn.worded.tokens_text]
      exact List.mem_append_right _ (List.mem_append_left _ (List.mem_of_getLast? hs))
    · cases hfalse

theorem getLast?_argumentTokens (t : TypeRef) (rest : List TypeRef) :
    (argumentTokens (t :: rest)).getLast? = some ">" := by
  rw [argumentTokens_cons, ← List.cons_append, List.getLast?_concat]

/-- The last token of a type is no scope mark. -/
theorem Canonical.getLast?_tokens (h : t.Canonical others isArgument) :
    ∃ s ∈ t.tokens.getLast?, s ≠ "::" := by
  have happend : ∀ {ts us : List String}, (∃ s ∈ ts.getLast?, s ≠ "::") →
      (∀ s ∈ us.getLast?, s ≠ "::") → ∃ s ∈ (ts ++ us).getLast?, s ≠ "::" := by
    intro ts us hts hus
    rw [List.getLast?_append]
    cases hu : us.getLast? with
    | none => exact hts
    | some s => exact ⟨s, rfl, hus s hu⟩
  have hargs : ∀ args, ∀ s ∈ (argumentTokens args).getLast?, s ≠ "::" := by
    intro args s hs
    cases args with
    | nil => cases hs
    | cons a args =>
      rw [getLast?_argumentTokens] at hs
      obtain rfl := Option.some.inj hs
      decide
  have hsuffix : ∀ p r a, ∀ s ∈ (suffixTokens p r a).getLast?, s ≠ "::" := by
    intro p r a s hs
    have hmem := mem_suffixTokens (List.mem_of_getLast? hs)
    rintro rfl
    exact absurd hmem (by decide)
  cases h with
  | intro name _ =>
    rw [tokens_eq, ← List.append_assoc, ← List.append_assoc]
    refine happend (happend ?_ (hargs _)) (hsuffix _ _ _)
    obtain ⟨s, hs, hscope⟩ := name.getLast?_tokens
    refine ⟨s, ?_, hscope⟩
    rw [List.getLast?_append, hs]
    rfl

/-! ## The text -/

theorem spells_suffix (p r a : Bool) (f : Char → Bool) :
    Spells (suffix p r a).toList (suffixTokens p r a) f := by
  have htext : (suffix p r a).toList = (if p then ['*'] else []) ++ (if r then ['&'] else []) ++
      (if a then ['[', ']'] else []) := by
    cases p <;> cases r <;> cases a <;> rfl
  have htokens : suffixTokens p r a = (suffix p r a).toList.map fun c => String.ofList [c] := by
    cases p <;> cases r <;> cases a <;> rfl
  rw [htokens]
  refine Spells.marks ?_ f
  rw [htext]
  cases p <;> cases r <;> cases a <;> decide

theorem head_renderRest (args : List TypeRef) :
    ∀ c ∈ (renderRest args).toList.head?, isBreak c = true := by
  cases args with
  | nil => simp [renderRest]
  | cons a args => simp [renderRest]; decide

theorem spells_renderRest {args : List TypeRef}
    (h : ∀ a ∈ args, Spells a.render.toList a.tokens isBreak ∧ a.render ≠ "") :
    Spells (renderRest args).toList (restTokens args) isBreak := by
  induction args with
  | nil => exact .nil _
  | cons a args ih =>
    obtain ⟨ha, hne⟩ := h a List.mem_cons_self
    have hrest := ih fun b hb => h b (List.mem_cons_of_mem _ hb)
    have hcomma := (Spells.mark (c := ',') rfl fun _ => true).spaced ha (by simp)
      (toList_ne_nil hne) rfl
    have hall := hcomma.append hrest (head_renderRest args) fun _ _ hc => hc
    rw [renderRest, restTokens]
    simpa using hall

theorem spells_renderArguments {args : List TypeRef}
    (h : ∀ a ∈ args, Spells a.render.toList a.tokens isBreak ∧ a.render ≠ "") :
    Spells (renderArguments args).toList (argumentTokens args) isBreak := by
  cases args with
  | nil => exact .nil _
  | cons a args =>
    obtain ⟨ha, hne⟩ := h a List.mem_cons_self
    have hrest := spells_renderRest fun b hb => h b (List.mem_cons_of_mem a hb)
    have hopen := (Spells.mark (c := '<') rfl fun _ => true).append ha (by simp) (by simp)
    have hinner := hopen.append hrest (head_renderRest args) fun _ _ hc => hc
    have hall := hinner.append (.mark (c := '>') rfl isBreak) (by rintro c ⟨⟩; rfl) (by simp)
    rw [renderArguments, argumentTokens]
    simpa using hall

theorem head_renderArguments (args : List TypeRef) (p r a : Bool) :
    ∀ c ∈ (renderArguments args ++ suffix p r a).toList.head?, isBreak c = true := by
  cases args with
  | nil => cases p <;> cases r <;> cases a <;> decide
  | cons b args =>
    intro c hc
    simp only [renderArguments, String.toList_append, List.append_assoc] at hc
    obtain rfl := Option.some.inj hc
    rfl

/-- The text of a type spells the type's tokens. -/
theorem Worded.spells_render (h : t.Worded isArgument) :
    Spells t.render.toList t.tokens isBreak ∧ t.render ≠ "" := by
  induction h with
  | @intro t isArgument name _ ih =>
    have hargs := (spells_renderArguments ih).append
      (spells_suffix t.isPointer t.isReference t.isArray isBreak) ?_ fun _ _ hc => hc
    rw [← String.toList_append] at hargs
    have hname := name.spells.append hargs (head_renderArguments _ _ _ _) fun _ _ hc => hc
    have hne : t.name ++ (renderArguments t.arguments ++
        suffix t.isPointer t.isReference t.isArray) ≠ "" := append_ne_empty_left name.ne_empty _
    rw [← String.toList_append] at hname
    have hrender : t.render = (if t.isConst then "const " else "") ++ (t.name ++
        (renderArguments t.arguments ++ suffix t.isPointer t.isReference t.isArray)) := by
      obtain ⟨name, isConst, isPointer, isReference, isArray, arguments⟩ := t
      simp [render, String.append_assoc]
    rw [tokens_eq, hrender]
    refine ⟨?_, append_ne_empty_right hne _⟩
    · cases t.isConst
      · simpa using hname
      · simpa [String.append_assoc] using hname.behindWord hne (show IsIdentifier "const" by decide)
    · cases t.isPointer <;> cases t.isReference <;> cases t.isArray <;> decide

theorem Canonical.spells_render (h : t.Canonical others isArgument) :
    Spells t.render.toList t.tokens isBreak ∧ t.render ≠ "" :=
  h.worded.spells_render

end TypeRef

end HeaderReflection
