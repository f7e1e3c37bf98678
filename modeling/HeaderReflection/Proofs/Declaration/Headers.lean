import HeaderReflection.Declaration.Header
import HeaderReflection.Proofs.Declaration.Members

/-!
# Container headers read back

* `RecordHeader.parse_text`: the header of a class or struct is read off its text.
* `EnumHeader.parse_text`: the header of an enum is read off its text.
-/

namespace HeaderReflection

open Declaration

/-- A base with its access. -/
structure Base where
  access : Visibility
  type : TypeRef

/-- What stands before the body of a class or struct. -/
structure RecordHeader where
  kind : ContainerKind
  name : String
  bases : List Base
  ne_enum : kind ≠ .enum := by decide

/-- What stands before the body of an enum. -/
structure EnumHeader where
  /-- The word `class` stands behind `enum`. -/
  isScoped : Bool
  name : String
  underlying : Option TypeRef

/-! ## Names -/

/-- A word that is not `final` takes the place of the name before it. -/
theorem headerName_word {name : String} (hname : IsIdentifier name) (hfinal : name ≠ "final")
    (before : Option String) (rest : List String) :
    headerName before (name :: rest) = headerName (some name) rest := by
  have hmark : ∀ m ∈ ["(", "<"], name ≠ m := by
    intro m hm hn
    have hnone : ∀ m ∈ ["(", "<"], ¬IsIdentifier m := by decide
    exact hnone m hm (hn ▸ hname)
  have hopen : ¬(name = "(" || name = "<") = true := by
    simp [hmark "(" (by decide), hmark "<" (by decide)]
  have hword : (name ≠ "final" && isWord name) = true := by
    simp [hfinal, isWord_of_isIdentifier hname]
  rw [headerName, if_neg hopen, if_pos hword]

/-- The tokens before a header's colon, and the name that they give. -/
structure Entitles (front : List String) (name : String) : Prop where
  leads : Leads bracketDepth (· ∈ [":"]) 0 front 0
  name : headerName none front = .ok (some name)

namespace Entitles

variable {front tail : List String} {text name : String} {kind : ContainerKind}

theorem word (hname : IsIdentifier name) (hfinal : name ≠ "final") : Entitles [name] name where
  leads := leads_word (.declaration (by decide)) hname
  name := by rw [headerName_word hname hfinal, headerName]

/-- A header without a colon. -/
theorem headerOf (h : Entitles front name) :
    headerOf text kind front = .ok ⟨kind, name, [], none⟩ := by
  unfold Declaration.headerOf
  simp only [breakTop_of_leads h.leads, h.name]

/-- What stands behind the colon of an enum's header is its underlying type. -/
theorem headerOf_underlying (h : Entitles front name) : Declaration.headerOf text .enum
    (front ++ ":" :: tail) = .ok ⟨.enum, name, [], some (TypeRef.ofTokens tail)⟩ := by
  unfold Declaration.headerOf
  simp only [breakTop_mark h.leads List.mem_cons_self, h.name, if_true]

/-- What stands behind the colon of another header are its bases. -/
theorem headerOf_bases (h : Entitles front name) (hkind : kind ≠ .enum) {bases : List TypeRef}
    (hbases : basesOf text (splitTop "," 0 tail) = .ok bases) : Declaration.headerOf text kind
      (front ++ ":" :: tail) = .ok ⟨kind, name, bases, none⟩ := by
  unfold Declaration.headerOf
  simp only [breakTop_mark h.leads List.mem_cons_self, h.name, if_neg hkind, hbases]
  rfl

end Entitles

/-- Behind its template's parameters, the header of a class or struct starts with its kind. -/
theorem parse_record {text : String} {kind : ContainerKind} {ts : List String}
    (h : skipTemplate (tokens text) = .ok (kind.word :: ts)) (hkind : kind ≠ .enum) :
    Header.parse text = headerOf text kind ts := by
  unfold Header.parse
  cases kind with
  | enum => exact absurd rfl hkind
  | «class» => simp only [h, ContainerKind.word, ContainerKind.ofWord?]
  | struct => simp only [h, ContainerKind.word, ContainerKind.ofWord?]

/-- Behind its template's parameters, the header of an enum starts with that word. -/
theorem parse_enum {text : String} {ts : List String}
    (h : skipTemplate (tokens text) = .ok ("enum" :: ts)) :
    Header.parse text = headerOf text .enum (skipScopedWord ts) := by
  unfold Header.parse
  simp only [h, ContainerKind.ofWord?]

/-- What stands behind a colon. -/
theorem spells_clause {cs : List Char} {clause : String} {ts us : List String} {f : Char → Bool}
    (h : Spells cs ts f) (hclause : Spells clause.toList us isBreak) (hcs : cs ≠ [])
    (hne : clause ≠ "") (hf : f ' ' = true) :
    Spells (cs ++ (" : " ++ clause).toList) (ts ++ ":" :: us) isBreak := by
  have hcolon := Spells.colon.spaced hclause (by simp) (toList_ne_nil hne) rfl
  have hall := h.spaced hcolon hcs (by simp) hf
  simpa using hall

/-! ## Bases -/

/-- The tokens of a base: its type's, and others that are no part of it. -/
structure IsBase (ts : List String) (t : TypeRef) : Prop where
  type : t.Canonical baseWords false
  filter : (ts.filter fun s => !baseWords.contains s) = t.tokens
  leads : Leads bracketDepth (· = ",") 0 ts 0

/-- Words of bases may stand before a type in which none of them occurs. -/
theorem isBase_specified {words : List String} (hwords : ∀ w ∈ words, w ∈ baseWords) {t : TypeRef}
    (h : t.Canonical baseWords false) : IsBase (words ++ t.tokens) t where
  type := h
  filter := by
    have hdrop : (words.filter fun s => !baseWords.contains s) = [] := by
      refine List.filter_eq_nil_iff.2 fun w hw => ?_
      simp [hwords w hw]
    have hkeep : ∀ s ∈ t.tokens, (!baseWords.contains s) = true := by
      intro s hs
      simp only [List.contains_eq_mem, Bool.not_eq_true', decide_eq_false_iff_not]
      intro hbase
      rcases h.mem_tokens hs with hm | hm | hm
      · have hnone : ∀ s ∈ baseWords,
            s ∉ ["const", "::", "*", "&", "[", "]", "<", ">", ","] := by decide
        exact hnone s hbase hm
      · exact hm.2.2 hbase
      · have hnone : ∀ s ∈ baseWords, ¬IsDigits s := by decide
        exact hnone s hbase hm
    rw [List.filter_append, hdrop, List.nil_append, List.filter_eq_self.2 hkeep]
  leads := by
    have hplain : ∀ w ∈ baseWords, bracketDepth w = 0 ∧ ¬w = "," := by decide
    have htype : Leads bracketDepth (· = ",") 0 t.tokens 0 :=
      h.leads_tokens (.declaration (by rintro _ rfl; decide))
    exact (Leads.plain (Int.le_refl 0) fun w hw => hplain w (hwords w hw)).append htype

/-- The types of bases are read off their tokens with commas between them. -/
theorem basesOf_tokens {α : Type} {tokens : α → List String} {type : α → TypeRef} {bases : List α}
    (hne : bases ≠ []) (h : ∀ b ∈ bases, IsBase (tokens b) (type b)) (text : String) :
    basesOf text (splitTop "," 0 ([","].intercalate (bases.map tokens))) =
      .ok (bases.map type) := by
  rw [splitTop_intercalate (by simpa using hne) (by simpa using fun b hb => (h b hb).leads)]
  clear hne
  induction bases with
  | nil => rfl
  | cons b bases ih =>
    have hb := h b List.mem_cons_self
    have htype : TypeRef.ofTokens (type b).tokens = type b := hb.type.ofTokens_tokens
    rw [List.map_cons, basesOf, hb.filter]
    split
    · rename_i hnil
      exact absurd hnil hb.type.tokens_ne_nil
    · rw [ih fun c hc => h c (List.mem_cons_of_mem _ hc), htype]
      rfl

namespace Base

/-- The text of a base. -/
def text (b : Base) : String :=
  b.access.word ++ " " ++ b.type.render

/-- The tokens of a base's text. -/
def tokens (b : Base) : List String :=
  b.access.word :: b.type.tokens

variable {b : Base}

theorem isIdentifier_access (v : Visibility) : IsIdentifier v.word := by
  cases v <;> decide

theorem spells_text (h : b.type.Canonical baseWords false) :
    Spells b.text.toList b.tokens isBreak ∧ b.text ≠ "" := by
  obtain ⟨htype, hne⟩ := h.spells_render
  exact ⟨htype.behindWord hne (isIdentifier_access b.access), append_ne_empty_right hne _⟩

theorem isBase_tokens (h : b.type.Canonical baseWords false) : IsBase b.tokens b.type := by
  have haccess : ∀ w ∈ [b.access.word], w ∈ baseWords := by
    cases b.access <;> decide
  exact isBase_specified haccess h

end Base

/-! ## Classes and structs -/

namespace RecordHeader

/-- A header whose text is read as the header. -/
structure Canonical (h : RecordHeader) : Prop where
  name : IsIdentifier h.name
  ne_final : h.name ≠ "final"
  bases : ∀ b ∈ h.bases, b.type.Canonical baseWords false

/-- The text of a header. -/
def text (h : RecordHeader) : String :=
  h.kind.word ++ " " ++ h.name ++
    (if h.bases = [] then "" else " : " ++ ", ".intercalate (h.bases.map Base.text))

/-- The tokens of a header's text. -/
def tokens (h : RecordHeader) : List String :=
  h.kind.word :: h.name ::
    (if h.bases = [] then [] else ":" :: [","].intercalate (h.bases.map Base.tokens))

variable {h : RecordHeader}

theorem Canonical.headerOf_tokens (hc : h.Canonical) (text : String) :
    headerOf text h.kind h.tokens.tail = .ok ⟨h.kind, h.name, h.bases.map Base.type, none⟩ := by
  have hfront := Entitles.word hc.name hc.ne_final
  unfold tokens
  by_cases hbases : h.bases = []
  · rw [if_pos hbases, List.tail_cons, hfront.headerOf, hbases]
    rfl
  · rw [if_neg hbases, List.tail_cons]
    exact hfront.headerOf_bases h.ne_enum
      (basesOf_tokens hbases (fun b hb => Base.isBase_tokens (hc.bases b hb)) text)

/-- The text of a canonical header spells its tokens. -/
theorem Canonical.spells_text (hc : h.Canonical) :
    Spells h.text.toList h.tokens isBreak ∧ h.text ≠ "" := by
  have hkind : IsIdentifier h.kind.word := by
    cases h.kind <;> decide
  have hfront := (Spells.identifier hc.name).behindWord (ne_empty_of_isIdentifier hc.name) hkind
  refine ⟨?_, ?_⟩
  · unfold text tokens
    by_cases hbases : h.bases = []
    · simpa [hbases] using hfront
    · have hclause := Spells.intercalate fun b hb => Base.spells_text (hc.bases b hb)
      have hne : ", ".intercalate (h.bases.map Base.text) ≠ "" := by
        refine intercalate_ne_empty (by simpa using hbases) fun t ht => ?_
        obtain ⟨b, hb, rfl⟩ := List.mem_map.1 ht
        exact (Base.spells_text (hc.bases b hb)).2
      have hall := spells_clause hfront hclause (by simp) hne rfl
      simpa [hbases] using hall
  · unfold text
    simp [String.append_eq_empty_iff, ne_empty_of_isIdentifier hc.name]

/-- The header of a class or struct is read off its text. -/
theorem Canonical.parse_text (hc : h.Canonical) :
    Header.parse h.text = .ok ⟨h.kind, h.name, h.bases.map Base.type, none⟩ := by
  have htemplate : h.kind.word ≠ "template" := by
    cases h.kind <;> decide
  have htokens : h.tokens = h.kind.word :: h.tokens.tail := rfl
  have hskip : skipTemplate (Declaration.tokens h.text) = .ok (h.kind.word :: h.tokens.tail) := by
    rw [tokens_of_spells hc.spells_text.1, htokens, skipTemplate, if_neg htemplate]
    rfl
  rw [parse_record hskip h.ne_enum]
  exact hc.headerOf_tokens h.text

end RecordHeader

/-! ## Enums -/

namespace EnumHeader

/-- A header whose text is read as the header. -/
structure Canonical (h : EnumHeader) : Prop where
  name : IsIdentifier h.name
  ne_word : h.name ∉ ["final", "class", "struct"]
  underlying : ∀ t ∈ h.underlying, t.Canonical [] false

/-- The text of a header. -/
def text (h : EnumHeader) : String :=
  (if h.isScoped then "enum class " else "enum ") ++ h.name ++
    (match h.underlying with
      | none => ""
      | some t => " : " ++ t.render)

/-- The tokens of a header's text. -/
def tokens (h : EnumHeader) : List String :=
  (if h.isScoped then ["enum", "class"] else ["enum"]) ++ h.name ::
    (match h.underlying with
      | none => []
      | some t => ":" :: t.tokens)

variable {h : EnumHeader}

/-- The text of a canonical header spells its tokens. -/
theorem Canonical.spells_text (hc : h.Canonical) :
    Spells h.text.toList h.tokens isBreak ∧ h.text ≠ "" := by
  have hname := Spells.identifier hc.name
  have hne := ne_empty_of_isIdentifier hc.name
  have henum : IsIdentifier "enum" := by decide
  have hfront : Spells ((if h.isScoped then "enum class " else "enum ") ++ h.name).toList
      ((if h.isScoped then ["enum", "class"] else ["enum"]) ++ [h.name]) isBreak := by
    cases h.isScoped
    · simpa using hname.behindWord hne henum
    · have hclass := hname.behindWord hne (show IsIdentifier "class" by decide)
      simpa using hclass.behindWord (append_ne_empty_right hne _) henum
  refine ⟨?_, ?_⟩
  · unfold text tokens
    cases hunderlying : h.underlying with
    | none => simpa using hfront
    | some t =>
      obtain ⟨ht, htne⟩ := (hc.underlying t hunderlying).spells_render
      have hall := spells_clause hfront ht (by simp [hne]) htne rfl
      simpa using hall
  · unfold text
    simp [String.append_eq_empty_iff, hne]

theorem Canonical.headerOf_tokens (hc : h.Canonical) (text : String) :
    headerOf text .enum (h.name ::
      (match h.underlying with
        | none => []
        | some t => ":" :: t.tokens)) = .ok ⟨.enum, h.name, [], h.underlying⟩ := by
  have hfront := Entitles.word hc.name fun hn => hc.ne_word (hn ▸ List.mem_cons_self)
  cases hunderlying : h.underlying with
  | none => exact hfront.headerOf
  | some t =>
    have ht : TypeRef.ofTokens t.tokens = t := (hc.underlying t hunderlying).ofTokens_tokens
    dsimp only
    rw [← List.singleton_append, hfront.headerOf_underlying, ht]

/-- The header of an enum is read off its text. -/
theorem Canonical.parse_text (hc : h.Canonical) :
    Header.parse h.text = .ok ⟨.enum, h.name, [], h.underlying⟩ := by
  have htail := hc.headerOf_tokens h.text
  have hscope : ¬(h.name = "class" || h.name = "struct") = true := by
    have hword := hc.ne_word
    simp only [List.mem_cons, List.not_mem_nil, or_false, not_or] at hword
    simp [hword]
  rw [Header.parse, tokens_of_spells hc.spells_text.1, tokens]
  cases h.isScoped
  · simp [skipTemplate, ContainerKind.ofWord?, skipScopedWord, hscope, htail]
  · simp [skipTemplate, ContainerKind.ofWord?, skipScopedWord, htail]

end EnumHeader

end HeaderReflection
