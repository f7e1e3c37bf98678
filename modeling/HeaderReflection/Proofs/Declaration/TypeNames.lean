import HeaderReflection.Proofs.Declaration.Levels
import HeaderReflection.Proofs.Token.Spelling

/-!
# Names of types

* `TypeName.Worded.spells_text`: the text of a name spells its words and scope marks.
* `TypeName.Canonical.collectType_tokens`: a type whose name is read off these tokens has that text
  for it.
-/

namespace HeaderReflection

open Declaration

/-- A word of the language's grammar. -/
def IsIdentifier (s : String) : Prop :=
  Token.IsWord s.toList

instance : DecidablePred IsIdentifier :=
  fun s => inferInstanceAs (Decidable (Token.IsWord s.toList))

/-- The words that name no type. -/
def reservedWords : List String :=
  "const" :: qualifiers

/-- An identifier that can name a type, a variable or a parameter, and is none of the given
words. -/
def IsPlainWord (others : List String) (s : String) : Prop :=
  IsIdentifier s ∧ s ∉ reservedWords ∧ s ∉ others

instance (others : List String) : DecidablePred (IsPlainWord others) :=
  fun _ => inferInstanceAs (Decidable (_ ∧ _ ∧ _))

/-- The name of a type: words of identifiers with scope marks between them. -/
structure TypeName where
  /-- A scope mark stands in front. -/
  isAbsolute : Bool
  words : List (List String)

theorem isWord_of_isIdentifier {s : String} (h : IsIdentifier s) : isWord s = true := by
  unfold isWord
  unfold IsIdentifier at h
  cases hs : s.toList with
  | nil => rw [hs] at h; exact h.elim
  | cons c cs =>
    rw [hs] at h
    exact h.1

/-- No identifier is a mark. -/
theorem not_isIdentifier_of_mark {s : String}
    (hs : s ∈ "::" :: "*" :: "&" :: delimiters) : ¬IsIdentifier s := by
  have hnone : ∀ s ∈ "::" :: "*" :: "&" :: delimiters, ¬IsIdentifier s := by decide
  exact hnone s hs

theorem mem_of_mem_intersperse {path : List String} {mark t : String}
    (h : t ∈ path.intersperse mark) : t = mark ∨ t ∈ path := by
  induction path with
  | nil => cases h
  | cons s path ih =>
    cases path with
    | nil => exact .inr h
    | cons next path =>
      rw [List.intersperse_cons_cons] at h
      rcases List.mem_cons.1 h with rfl | h
      · exact .inr List.mem_cons_self
      · rcases List.mem_cons.1 h with rfl | h
        · exact .inl rfl
        · exact (ih h).imp_right (List.mem_cons_of_mem _)

theorem mem_intersperse_of_mem {path : List String} {mark t : String} (h : t ∈ path) :
    t ∈ path.intersperse mark := by
  induction path with
  | nil => cases h
  | cons s path ih =>
    cases path with
    | nil => exact h
    | cons next path =>
      rw [List.intersperse_cons_cons]
      rcases List.mem_cons.1 h with rfl | h
      · exact List.mem_cons_self
      · exact List.mem_cons_of_mem _ (List.mem_cons_of_mem _ (ih h))

theorem getLast?_intersperse (path : List String) (mark : String) :
    (path.intersperse mark).getLast? = path.getLast? := by
  induction path with
  | nil => rfl
  | cons s path ih =>
    cases path with
    | nil => rfl
    | cons next path =>
      rw [List.intersperse_cons_cons, List.getLast?_cons_cons, List.getLast?_cons,
        List.getLast?_cons_cons, ih, List.getLast?_cons]
      rfl

/-! ## Reading a name -/

section Reading

variable {others : List String} {ty : TypeRef} {afterScope : Bool}

theorem collectType_scope (rest : List String) :
    collectType ty afterScope ("::" :: rest) =
      collectType { ty with name := ty.name ++ "::" } true rest := by
  rw [collectType]
  simp

/-- A part of a name: no mark and none of the words that name no type. -/
theorem collectType_part {s : String} (hmark : s ∉ "::" :: "*" :: "&" :: delimiters)
    (hreserved : s ∉ reservedWords) (hname : isNamePart s = true) (rest : List String) :
    collectType ty afterScope (s :: rest) =
      collectType { ty with name := extendName ty.name afterScope s } false rest := by
  have hne : ∀ m ∈ "::" :: "*" :: "&" :: delimiters, s ≠ m := fun m hm hs => hmark (hs ▸ hm)
  have hconst : s ≠ "const" := fun hs => hreserved (hs ▸ List.mem_cons_self)
  have hqualifier : qualifiers.contains s = false := by
    simpa using fun hs => hreserved (List.mem_cons_of_mem _ hs)
  rw [collectType]
  simp only [if_neg (hne "::" (by decide)), if_neg (hne "[" (by decide)),
    if_neg (hne "<" (by decide)), extendType, if_neg hconst, if_neg (hne "*" (by decide)),
    if_neg (hne "&" (by decide)), hqualifier, hname]
  simp

theorem collectType_word {s : String} (h : IsPlainWord others s) (rest : List String) :
    collectType ty afterScope (s :: rest) =
      collectType { ty with name := extendName ty.name afterScope s } false rest :=
  collectType_part (fun hm => not_isIdentifier_of_mark hm h.1) h.2.1
    (by simp [isNamePart, isWord_of_isIdentifier h.1]) rest

theorem extendName_append (name : String) (afterScope : Bool) (s t : String) :
    extendName name afterScope s ++ t = extendName name afterScope (s ++ t) := by
  unfold extendName
  split <;> simp [String.append_assoc]

theorem extendName_true (name t : String) : extendName name true t = name ++ t := by
  simp [extendName]

theorem extendName_false {name : String} (h : name ≠ "") (t : String) :
    extendName name false t = name ++ " " ++ t := by
  simp [extendName, h]

/-- A word of a name is read as a whole. -/
theorem collectType_path {path : List String} (hne : path ≠ [])
    (h : ∀ s ∈ path, IsPlainWord others s) (rest : List String) :
    collectType ty afterScope (path.intersperse "::" ++ rest) =
      collectType { ty with name := extendName ty.name afterScope ("::".intercalate path) }
        false rest := by
  induction path generalizing ty afterScope with
  | nil => exact absurd rfl hne
  | cons s path ih =>
    have hs := h s List.mem_cons_self
    cases path with
    | nil =>
      rw [List.intersperse_singleton, List.singleton_append, collectType_word hs,
        String.intercalate_singleton]
    | cons next path =>
      rw [List.intersperse_cons_cons, List.cons_append, List.cons_append, collectType_word hs,
        collectType_scope, ih (by simp) fun s hs => h s (List.mem_cons_of_mem _ hs),
        String.intercalate_cons_cons]
      simp only [extendName_true, String.append_assoc, extendName_append]

theorem ne_empty_of_isIdentifier {s : String} (h : IsIdentifier s) : s ≠ "" := by
  rintro rfl
  exact h

/-- A word spells itself before anything that breaks a text. -/
theorem Spells.identifier {word : String} (h : IsIdentifier word) :
    Spells word.toList [word] isBreak :=
  (Spells.word h).weaken fun _ hc => (ends_of_isBreak hc).1

/-- A text spells its tokens and the word behind it. -/
theorem Spells.beforeWord {text word : String} {ts : List String}
    (h : Spells text.toList ts isBreak) (hne : text ≠ "") (hword : IsIdentifier word) :
    Spells (text ++ " " ++ word).toList (ts ++ [word]) isBreak := by
  have hboth := h.spaced (.identifier hword) (toList_ne_nil hne)
    (toList_ne_nil (ne_empty_of_isIdentifier hword)) rfl
  simpa using hboth

/-- A text spells the word before it and its tokens. -/
theorem Spells.behindWord {text word : String} {ts : List String} {f : Char → Bool}
    (h : Spells text.toList ts f) (hne : text ≠ "") (hword : IsIdentifier word) :
    Spells (word ++ " " ++ text).toList (word :: ts) f := by
  have hboth := (Spells.word hword).spaced h (toList_ne_nil (ne_empty_of_isIdentifier hword))
    (toList_ne_nil hne) rfl
  simpa using hboth

theorem extendName_ne_empty {t : String} (ht : t ≠ "") (name : String) (afterScope : Bool) :
    extendName name afterScope t ≠ "" := by
  unfold extendName
  split
  · exact append_ne_empty_right ht _
  · exact append_ne_empty_right ht _

/-- The words of a name. -/
theorem collectType_words {words : List (List String)} (hne : words ≠ [])
    (h : ∀ w ∈ words, w ≠ [] ∧ ∀ s ∈ w, IsPlainWord others s) (rest : List String) :
    collectType ty afterScope (words.flatMap (·.intersperse "::") ++ rest) =
      collectType
        { ty with
          name := extendName ty.name afterScope (" ".intercalate (words.map ("::".intercalate ·))) }
        false rest := by
  induction words generalizing ty afterScope with
  | nil => exact absurd rfl hne
  | cons w words ih =>
    obtain ⟨hw, hpath⟩ := h w List.mem_cons_self
    cases words with
    | nil =>
      rw [List.flatMap_cons, List.flatMap_nil, List.append_nil, collectType_path hw hpath]
      simp
    | cons next words =>
      have htext : "::".intercalate w ≠ "" :=
        intercalate_ne_empty hw fun s hs => ne_empty_of_isIdentifier (hpath s hs).1
      rw [List.flatMap_cons, List.append_assoc, collectType_path hw hpath,
        ih (by simp) fun v hv => h v (List.mem_cons_of_mem _ hv), List.map_cons]
      simp only [List.map_cons, String.intercalate_cons_cons]
      rw [extendName_false (extendName_ne_empty htext _ _), extendName_append]
      simp only [String.append_assoc, extendName_append]

end Reading

namespace TypeName

/-- The text of a name. -/
def text (n : TypeName) : String :=
  (if n.isAbsolute then "::" else "") ++ " ".intercalate (n.words.map ("::".intercalate ·))

/-- The tokens of a name. -/
def tokens (n : TypeName) : List String :=
  (if n.isAbsolute then ["::"] else []) ++ n.words.flatMap (·.intersperse "::")

/-- There are words, and all their parts are identifiers. -/
structure Worded (n : TypeName) : Prop where
  ne_nil : n.words ≠ []
  isIdentifier : ∀ w ∈ n.words, w ≠ [] ∧ ∀ s ∈ w, IsIdentifier s

/-- There are words, and all their parts can name a type and are none of the given ones. -/
structure Canonical (others : List String) (n : TypeName) : Prop where
  ne_nil : n.words ≠ []
  isPlainWord : ∀ w ∈ n.words, w ≠ [] ∧ ∀ s ∈ w, IsPlainWord others s

variable {others : List String} {n : TypeName}

theorem Canonical.worded (h : n.Canonical others) : n.Worded where
  ne_nil := h.ne_nil
  isIdentifier w hw := (h.isPlainWord w hw).imp_right fun hplain s hs => (hplain s hs).1

/-- A type whose name is read off the tokens of a name has the text of the name for it. -/
theorem Canonical.collectType_tokens (h : n.Canonical others) {ty : TypeRef} (hty : ty.name = "")
    (rest : List String) : collectType ty false (n.tokens ++ rest) =
      collectType { ty with name := n.text } false rest := by
  unfold tokens text
  split
  · rw [List.append_assoc, List.singleton_append, collectType_scope,
      collectType_words h.ne_nil h.isPlainWord, extendName_true, hty]
    rfl
  · rw [List.nil_append, collectType_words h.ne_nil h.isPlainWord, hty]
    rfl

theorem mem_tokens {t : String} (ht : t ∈ n.tokens) : t = "::" ∨ ∃ w ∈ n.words, t ∈ w := by
  unfold tokens at ht
  rcases List.mem_append.1 ht with ht | ht
  · split at ht
    · exact .inl (List.mem_singleton.1 ht)
    · cases ht
  · obtain ⟨w, hw, ht⟩ := List.mem_flatMap.1 ht
    exact (mem_of_mem_intersperse ht).imp_right fun h => ⟨w, hw, h⟩

theorem mem_tokens_of_mem {w : List String} {t : String} (hw : w ∈ n.words) (ht : t ∈ w) :
    t ∈ n.tokens :=
  List.mem_append_right _ (List.mem_flatMap.2 ⟨w, hw, mem_intersperse_of_mem ht⟩)

theorem Canonical.mem_tokens (h : n.Canonical others) {t : String} (ht : t ∈ n.tokens) :
    t = "::" ∨ IsPlainWord others t :=
  (TypeName.mem_tokens ht).imp_right fun ⟨w, hw, hs⟩ => (h.isPlainWord w hw).2 t hs

/-- The last token of a name is a word. -/
theorem Canonical.getLast?_tokens (h : n.Canonical others) :
    ∃ s ∈ n.tokens.getLast?, IsPlainWord others s := by
  obtain ⟨w, hw⟩ := Option.ne_none_iff_exists'.1 fun hn => h.ne_nil (List.getLast?_eq_none_iff.1 hn)
  obtain ⟨words, hwords⟩ := List.getLast?_eq_some_iff.1 hw
  obtain ⟨hne, hplain⟩ := h.isPlainWord w (List.mem_of_getLast? hw)
  obtain ⟨s, hs⟩ := Option.ne_none_iff_exists'.1 fun hn => hne (List.getLast?_eq_none_iff.1 hn)
  refine ⟨s, ?_, hplain s (List.mem_of_getLast? hs)⟩
  unfold tokens
  rw [hwords, List.flatMap_append, List.flatMap_singleton, List.getLast?_append,
    List.getLast?_append, getLast?_intersperse, hs]
  rfl

theorem path_ne_empty {path : List String} (hne : path ≠ []) (h : ∀ s ∈ path, IsIdentifier s) :
    "::".intercalate path ≠ "" :=
  intercalate_ne_empty hne fun s hs => ne_empty_of_isIdentifier (h s hs)

theorem words_ne_empty {words : List (List String)} (hne : words ≠ [])
    (h : ∀ w ∈ words, w ≠ [] ∧ ∀ s ∈ w, IsIdentifier s) :
    " ".intercalate (words.map ("::".intercalate ·)) ≠ "" := by
  refine intercalate_ne_empty (by simpa using hne) fun t ht => ?_
  obtain ⟨w, hw, rfl⟩ := List.mem_map.1 ht
  exact path_ne_empty (h w hw).1 (h w hw).2

theorem Worded.text_ne_empty (h : n.Worded) : n.text ≠ "" :=
  append_ne_empty_right (words_ne_empty h.ne_nil h.isIdentifier) _

theorem spells_path {path : List String} (hne : path ≠ []) (h : ∀ s ∈ path, IsIdentifier s) :
    Spells ("::".intercalate path).toList (path.intersperse "::") Reads.endsWord := by
  induction path with
  | nil => exact absurd rfl hne
  | cons s path ih =>
    have hs := Spells.word (h s List.mem_cons_self)
    cases path with
    | nil => rwa [String.intercalate_singleton]
    | cons next path =>
      have hrest := ih (by simp) fun t ht => h t (List.mem_cons_of_mem _ ht)
      have hscope := (Spells.scope fun _ => true).append hrest (by simp) (by simp)
      have hboth := hs.append hscope (by rintro c ⟨⟩; decide) (by simp)
      rw [String.intercalate_cons_cons]
      simpa using hboth

theorem spells_words {words : List (List String)} (hne : words ≠ [])
    (h : ∀ w ∈ words, w ≠ [] ∧ ∀ s ∈ w, IsIdentifier s) :
    Spells (" ".intercalate (words.map ("::".intercalate ·))).toList
      (words.flatMap (·.intersperse "::")) Reads.endsWord := by
  induction words with
  | nil => exact absurd rfl hne
  | cons w words ih =>
    obtain ⟨hw, hpath⟩ := h w List.mem_cons_self
    have hfirst := spells_path hw hpath
    cases words with
    | nil => simpa using hfirst
    | cons next words =>
      have hrest := ih (by simp) fun v hv => h v (List.mem_cons_of_mem _ hv)
      have hmore := words_ne_empty (by simp) fun v hv => h v (List.mem_cons_of_mem w hv)
      have hboth := hfirst.spaced hrest (toList_ne_nil (path_ne_empty hw hpath))
        (toList_ne_nil hmore) (by decide)
      rw [List.map_cons, List.map_cons, String.intercalate_cons_cons]
      simpa using hboth

/-- The text of a name spells its tokens. -/
theorem Worded.spells_text (h : n.Worded) : Spells n.text.toList n.tokens Reads.endsWord := by
  have hwords := spells_words h.ne_nil h.isIdentifier
  unfold text tokens
  split
  · have hscope := (Spells.scope fun _ => true).append hwords (by simp) (by simp)
    simpa using hscope
  · simpa using hwords

theorem Worded.tokens_text (h : n.Worded) : Declaration.tokens n.text = n.tokens :=
  tokens_of_spells h.spells_text

end TypeName

end HeaderReflection
