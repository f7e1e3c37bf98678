import HeaderReflection.Proofs.Declaration.Headers
import HeaderReflection.Proofs.Token.Lexemes

/-!
# Container headers with all that may stand in them

A class may be a template, macros and groups in brackets may stand before a container's name, and
each base may have words before its type.

* `entitles_ornaments`: words and groups before a name leave it the name.
* `FullHeader.Canonical.parse_tokens`: a header is read off its tokens.
* `FullHeader.Canonical.tokens_text`: with spaces between the tokens before the colon, a header's
  text falls into its tokens.
* `FullHeader.parse_spaced`: a header is read off every text that falls into its tokens.
-/

namespace HeaderReflection

open Declaration
open Token (isComplete)

/-- Every bracket that the tokens open they close, and no other. Brackets of all shapes count. -/
def IsBalanced (ts : List String) : Prop :=
  Leads bracketDepth (fun _ => False) 0 ts 0

instance : DecidablePred IsBalanced :=
  fun _ => inferInstanceAs (Decidable (Leads ..))

/-- A word that has no meaning of its own in a header. -/
def IsHeaderWord (w : String) : Prop :=
  IsIdentifier w ∧ w ∉ ["class", "struct", "final"]

instance : DecidablePred IsHeaderWord :=
  fun _ => inferInstanceAs (Decidable (_ ∧ _))

/-- A word of a header is not the one that makes an enum scoped. -/
theorem skipScopedWord_word {w : String} (h : IsHeaderWord w) (rest : List String) :
    skipScopedWord (w :: rest) = w :: rest := by
  have hword := h.2
  simp only [List.mem_cons, List.not_mem_nil, or_false, not_or] at hword
  exact if_neg (by simp [hword])

/-! ## What stands before a name -/

/-- Reading a name goes on behind a group. -/
theorem headerName_group {opening closing : String} {ts : List String}
    (hopening : (opening = "(" || opening = "<") = true) (hclosing : bracketDepth closing = -1)
    (h : IsBalanced ts) (before : Option String) (rest : List String) :
    headerName before (opening :: (ts ++ [closing]) ++ rest) = headerName before rest := by
  have hclose := closeGroup_group h closing hclosing rest
  rw [List.cons_append, List.append_assoc, List.singleton_append, headerName, if_pos hopening]
  split
  · rename_i hnone
    cases hclose.symm.trans hnone
  · rename_i hsome
    cases hclose.symm.trans hsome
    rfl

/-- What may stand between the kind and the name of a container: a word, or a group in round or in
angle brackets. -/
inductive Ornament where
  | word (w : String)
  | round (ts : List String)
  | angle (ts : List String)

namespace Ornament

/-- The tokens of an ornament. -/
def tokens : Ornament → List String
  | word w => [w]
  | round ts => "(" :: (ts ++ [")"])
  | angle ts => "<" :: (ts ++ [">"])

/-- The tokens between the brackets of an ornament. -/
def inner : Ornament → List String
  | word _ => []
  | round ts | angle ts => ts

/-- A word has no meaning of its own, and a group closes all brackets. -/
def Canonical : Ornament → Prop
  | word w => IsHeaderWord w
  | round ts | angle ts => IsBalanced ts

instance : DecidablePred Canonical
  | word w => inferInstanceAs (Decidable (IsHeaderWord w))
  | round ts | angle ts => inferInstanceAs (Decidable (IsBalanced ts))

variable {o : Ornament}

theorem Canonical.leads_tokens (h : o.Canonical) : Leads bracketDepth (· ∈ [":"]) 0 o.tokens 0 := by
  cases o with
  | word w => exact leads_word (.declaration (by decide)) h.1
  | round ts => exact .group (by decide) (by decide) (by decide) h
  | angle ts => exact .group (by decide) (by decide) (by decide) h

/-- Reading a name goes on behind an ornament. -/
theorem Canonical.exists_headerName (h : o.Canonical) (before : Option String)
    (rest : List String) :
    ∃ name, headerName before (o.tokens ++ rest) = headerName name rest := by
  cases o with
  | word w => exact ⟨some w, headerName_word h.1 (fun hw => h.2 (by simp [hw])) before rest⟩
  | round ts => exact ⟨before, headerName_group rfl (by decide) h before rest⟩
  | angle ts => exact ⟨before, headerName_group rfl (by decide) h before rest⟩

/-- No ornament starts with the word that makes an enum scoped. -/
theorem Canonical.skipScopedWord_tokens (h : o.Canonical) (rest : List String) :
    skipScopedWord (o.tokens ++ rest) = o.tokens ++ rest := by
  cases o with
  | word w => exact skipScopedWord_word h rest
  | round ts => simp [tokens, skipScopedWord]
  | angle ts => simp [tokens, skipScopedWord]

theorem Canonical.isComplete_tokens (h : o.Canonical)
    (hinner : ∀ w ∈ o.inner, isComplete w = true) : ∀ w ∈ o.tokens, isComplete w = true := by
  cases o with
  | word w => simpa [tokens] using isComplete_of_isWord h.1
  | round ts =>
    have hmarks : ∀ w ∈ ["(", ")"], isComplete w = true := by decide
    simpa [tokens, or_imp, forall_and] using
      ⟨hmarks "(" (by simp), hinner, hmarks ")" (by simp)⟩
  | angle ts =>
    have hmarks : ∀ w ∈ ["<", ">"], isComplete w = true := by decide
    simpa [tokens, or_imp, forall_and] using
      ⟨hmarks "<" (by simp), hinner, hmarks ">" (by simp)⟩

end Ornament

section Front

variable {ornaments : List Ornament} {name : String}

theorem leads_ornaments (h : ∀ o ∈ ornaments, o.Canonical) :
    Leads bracketDepth (· ∈ [":"]) 0 (ornaments.flatMap Ornament.tokens) 0 := by
  induction ornaments with
  | nil => rfl
  | cons o ornaments ih =>
    obtain ⟨ho, hrest⟩ := List.forall_mem_cons.1 h
    exact ho.leads_tokens.append (ih hrest)

/-- Every name that an ornament gives is given up for the next one. -/
theorem headerName_ornaments (h : ∀ o ∈ ornaments, o.Canonical) (hname : IsHeaderWord name)
    (before : Option String) (rest : List String) :
    headerName before (ornaments.flatMap Ornament.tokens ++ name :: rest) =
      headerName (some name) rest := by
  induction ornaments generalizing before with
  | nil => exact headerName_word hname.1 (fun hfinal => hname.2 (by simp [hfinal])) before rest
  | cons o ornaments ih =>
    obtain ⟨ho, hrest⟩ := List.forall_mem_cons.1 h
    obtain ⟨next, hnext⟩ := ho.exists_headerName before
      (ornaments.flatMap Ornament.tokens ++ name :: rest)
    rw [List.flatMap_cons, List.append_assoc, hnext, ih hrest]

/-- Words and groups before a name leave it the name, and so does the word `final` behind it. -/
theorem entitles_ornaments (h : ∀ o ∈ ornaments, o.Canonical) (hname : IsHeaderWord name)
    (isFinal : Bool) :
    Entitles (ornaments.flatMap Ornament.tokens ++ name :: (if isFinal then ["final"] else []))
      name where
  leads := by
    have hword : Leads bracketDepth (· ∈ [":"]) 0 [name] 0 :=
      leads_word (.declaration (by decide)) hname.1
    have hfinal : Leads bracketDepth (· ∈ [":"]) 0 ["final"] 0 := by decide
    refine (leads_ornaments h).append ?_
    cases isFinal
    · exact hword
    · exact hword.append hfinal
  name := by
    rw [headerName_ornaments h hname]
    cases isFinal <;> simp [headerName]

theorem skipScopedWord_ornaments (h : ∀ o ∈ ornaments, o.Canonical) (hname : IsHeaderWord name)
    (rest : List String) : skipScopedWord (ornaments.flatMap Ornament.tokens ++ name :: rest) =
      ornaments.flatMap Ornament.tokens ++ name :: rest := by
  cases ornaments with
  | nil => exact skipScopedWord_word hname rest
  | cons o ornaments =>
    rw [List.flatMap_cons, List.append_assoc]
    exact (h o List.mem_cons_self).skipScopedWord_tokens _

end Front

/-! ## Bases with words before their types -/

/-- A base, and the words before its type. -/
structure SpecifiedBase where
  specifiers : List String
  type : TypeRef

namespace SpecifiedBase

/-- The words say how the class is inherited, and none of them occurs in the type. -/
structure Canonical (b : SpecifiedBase) : Prop where
  specifiers : ∀ w ∈ b.specifiers, w ∈ baseWords
  type : b.type.Canonical baseWords false

/-- The text of a base. -/
def text (b : SpecifiedBase) : String :=
  " ".intercalate (b.specifiers ++ [b.type.render])

/-- The tokens of a base's text. -/
def tokens (b : SpecifiedBase) : List String :=
  b.specifiers ++ b.type.tokens

variable {b : SpecifiedBase}

theorem Canonical.spells_text (h : b.Canonical) :
    Spells b.text.toList b.tokens isBreak ∧ b.text ≠ "" := by
  obtain ⟨specifiers, type⟩ := b
  obtain ⟨hwords, htype⟩ := h
  unfold text tokens
  dsimp only at *
  induction specifiers with
  | nil => simpa using htype.spells_render
  | cons w specifiers ih =>
    obtain ⟨hw, hrest⟩ := List.forall_mem_cons.1 hwords
    have hid : ∀ w ∈ baseWords, IsIdentifier w := by decide
    obtain ⟨hspells, hne⟩ := ih hrest
    have hall := hspells.behindWord hne (hid w hw)
    rw [List.cons_append, String.intercalate_cons_of_ne_nil (by simp)]
    exact ⟨hall, append_ne_empty_right hne _⟩

end SpecifiedBase

/-! ## Kinds -/

/-- The words that start the header of a class. -/
inductive ClassKey where
  | «class» | «struct»

/-- The words that start the header of an enum. -/
inductive EnumKey where
  | enum | enumClass | enumStruct

/-- The kind of a container, and what stands behind the colon of its header, if there is one. -/
inductive HeaderSort where
  | record (key : ClassKey) (bases : List SpecifiedBase)
  | enum (key : EnumKey) (underlying : Option TypeRef)

/-- The kind of container that a class key declares. -/
def ClassKey.kind : ClassKey → ContainerKind
  | .class => .class
  | .struct => .struct

/-- The words of an enum key. -/
def EnumKey.words : EnumKey → List String
  | .enum => ["enum"]
  | .enumClass => ["enum", "class"]
  | .enumStruct => ["enum", "struct"]

namespace HeaderSort

/-- The kind of container that is declared. -/
def kind : HeaderSort → ContainerKind
  | record key _ => key.kind
  | enum .. => .enum

/-- The types of the bases. An enum has none. -/
def bases : HeaderSort → List TypeRef
  | record _ bases => bases.map SpecifiedBase.type
  | enum .. => []

/-- The underlying type. Only an enum has one. -/
def underlying : HeaderSort → Option TypeRef
  | record .. => none
  | enum _ underlying => underlying

/-- The words that start the header. -/
def words : HeaderSort → List String
  | record key _ => [key.kind.word]
  | enum key _ => key.words

/-- The tokens from the colon on. -/
def clauseTokens : HeaderSort → List String
  | record _ [] | enum _ none => []
  | record _ (b :: bs) => ":" :: [","].intercalate ((b :: bs).map SpecifiedBase.tokens)
  | enum _ (some t) => ":" :: t.tokens

/-- The text from the colon on. -/
def clauseText : HeaderSort → String
  | record _ [] | enum _ none => ""
  | record _ (b :: bs) => " : " ++ ", ".intercalate ((b :: bs).map SpecifiedBase.text)
  | enum _ (some t) => " : " ++ t.render

/-- Bases and underlying types are read as they stand. -/
def Canonical : HeaderSort → Prop
  | record _ bases => ∀ b ∈ bases, b.Canonical
  | enum _ underlying => ∀ t ∈ underlying, t.Canonical [] false

theorem exists_words (sort : HeaderSort) : ∃ w ws, sort.words = w :: ws ∧ w ≠ "template" := by
  cases sort with
  | record key bases => exact ⟨_, _, rfl, by cases key <;> decide⟩
  | enum key underlying => cases key <;> exact ⟨_, _, rfl, by decide⟩

theorem isIdentifier_words (sort : HeaderSort) : ∀ w ∈ sort.words, IsIdentifier w := by
  have hclass : ∀ key : ClassKey, IsIdentifier key.kind.word := by
    intro key
    cases key <;> decide
  have henum : ∀ key : EnumKey, ∀ w ∈ key.words, IsIdentifier w := by
    intro key
    cases key <;> decide
  cases sort with
  | record key bases => exact List.forall_mem_singleton.2 (hclass key)
  | enum key underlying => exact henum key

/-- A text spells its tokens and those from the colon on. -/
theorem Canonical.exists_spells {sort : HeaderSort} (h : sort.Canonical) {cs : List Char}
    {ts : List String} {f : Char → Bool} (hfront : Spells cs ts f) (hcs : cs ≠ [])
    (hf : f ' ' = true) :
    ∃ g, Spells (cs ++ sort.clauseText.toList) (ts ++ sort.clauseTokens) g := by
  have hnone : ∃ g, Spells (cs ++ "".toList) (ts ++ []) g := ⟨f, by simpa using hfront⟩
  cases sort with
  | record key bases =>
    cases bases with
    | nil => exact hnone
    | cons b bs =>
      have hbases := Spells.intercalate fun c hc => (h c hc).spells_text
      have hne : ", ".intercalate ((b :: bs).map SpecifiedBase.text) ≠ "" := by
        refine intercalate_ne_empty (by simp) fun t ht => ?_
        obtain ⟨c, hc, rfl⟩ := List.mem_map.1 ht
        exact (h c hc).spells_text.2
      exact ⟨isBreak, spells_clause hfront hbases hcs hne hf⟩
  | enum key underlying =>
    cases underlying with
    | none => exact hnone
    | some t =>
      obtain ⟨ht, hne⟩ := (h t rfl).spells_render
      exact ⟨isBreak, spells_clause hfront ht hcs hne hf⟩

end HeaderSort

/-! ## Headers -/

/-- All that may stand before the body of a container. -/
structure FullHeader where
  /-- The parameters of the template that the container is. -/
  template : Option (List String)
  sort : HeaderSort
  ornaments : List Ornament
  name : String
  /-- The word `final` stands behind the name. -/
  isFinal : Bool

namespace FullHeader

/-- A header that is read as it is declared. -/
structure Canonical (h : FullHeader) : Prop where
  template : ∀ ts ∈ h.template, IsBalanced ts
  sort : h.sort.Canonical
  ornaments : ∀ o ∈ h.ornaments, o.Canonical
  name : IsHeaderWord h.name

/-- The tokens of the template's parameter list. -/
def templateTokens (h : FullHeader) : List String :=
  match h.template with
  | none => []
  | some ts => "template" :: "<" :: (ts ++ [">"])

/-- The tokens between the kind and the colon. -/
def nameTokens (h : FullHeader) : List String :=
  h.ornaments.flatMap Ornament.tokens ++ h.name :: (if h.isFinal then ["final"] else [])

/-- The tokens before the colon. -/
def frontTokens (h : FullHeader) : List String :=
  h.templateTokens ++ (h.sort.words ++ h.nameTokens)

/-- The tokens of a header. -/
def tokens (h : FullHeader) : List String :=
  h.frontTokens ++ h.sort.clauseTokens

/-- The text of a header, with spaces between the tokens before the colon. -/
def text (h : FullHeader) : String :=
  " ".intercalate h.frontTokens ++ h.sort.clauseText

/-- The tokens between the brackets of the template's parameters and of the groups before the
name. -/
def inner (h : FullHeader) : List String :=
  h.template.getD [] ++ h.ornaments.flatMap Ornament.inner

variable {h : FullHeader}

/-! ### Reading the tokens -/

theorem Canonical.entitles (hc : h.Canonical) : Entitles h.nameTokens h.name :=
  entitles_ornaments hc.ornaments hc.name h.isFinal

/-- The template's parameters are passed over. -/
theorem Canonical.skipTemplate_tokens (hc : h.Canonical) :
    skipTemplate h.tokens = .ok (h.sort.words ++ (h.nameTokens ++ h.sort.clauseTokens)) := by
  obtain ⟨w, ws, hwords, hw⟩ := h.sort.exists_words
  rw [tokens, frontTokens, List.append_assoc, List.append_assoc, hwords, List.cons_append]
  generalize ws ++ (h.nameTokens ++ h.sort.clauseTokens) = rest
  unfold templateTokens
  cases htemplate : h.template with
  | none => exact if_neg hw
  | some ts =>
    have hclose := closeGroup_group (hc.template ts htemplate) ">" (by decide) (w :: rest)
    have hopen : closeGroup 0 ("<" :: (ts ++ ">" :: w :: rest)) =
        some ("<" :: (ts ++ [">"]), w :: rest) := by
      rw [closeGroup, if_neg (by decide), show (0 : Int) + bracketDepth "<" = 1 by decide, hclose]
      rfl
    simp [skipTemplate, hopen]

theorem Canonical.headerOf_clause (hc : h.Canonical) (text : String) :
    headerOf text h.sort.kind (h.nameTokens ++ h.sort.clauseTokens) =
      .ok ⟨h.sort.kind, h.name, h.sort.bases, h.sort.underlying⟩ := by
  have hname := hc.entitles
  have hsort := hc.sort
  cases hs : h.sort with
  | record key bases =>
    rw [hs] at hsort
    cases bases with
    | nil =>
      rw [HeaderSort.clauseTokens, List.append_nil]
      exact hname.headerOf
    | cons b bs =>
      have hkind : key.kind ≠ .enum := by
        cases key <;> decide
      refine hname.headerOf_bases hkind (basesOf_tokens (by simp) (fun c hmem => ?_) text)
      exact isBase_specified (hsort c hmem).specifiers (hsort c hmem).type
  | enum key underlying =>
    rw [hs] at hsort
    cases underlying with
    | none =>
      rw [HeaderSort.clauseTokens, List.append_nil]
      exact hname.headerOf
    | some t =>
      have ht : TypeRef.ofTokens t.tokens = t := (hsort t rfl).ofTokens_tokens
      rw [HeaderSort.clauseTokens, HeaderSort.kind, hname.headerOf_underlying, ht]
      rfl

/-- A header is read off its tokens. -/
theorem Canonical.parse_tokens (hc : h.Canonical) {text : String}
    (htext : Declaration.tokens text = h.tokens) :
    Header.parse text = .ok ⟨h.sort.kind, h.name, h.sort.bases, h.sort.underlying⟩ := by
  have hskip := hc.skipTemplate_tokens
  have hclause := hc.headerOf_clause text
  have hscoped : skipScopedWord (h.nameTokens ++ h.sort.clauseTokens) =
      h.nameTokens ++ h.sort.clauseTokens := by
    have hword := skipScopedWord_ornaments hc.ornaments hc.name
      ((if h.isFinal then ["final"] else []) ++ h.sort.clauseTokens)
    simpa [nameTokens] using hword
  rw [← htext] at hskip
  cases hs : h.sort with
  | record key bases =>
    rw [hs] at hskip hclause
    rw [parse_record hskip (by cases key <;> decide)]
    exact hclause
  | enum key underlying =>
    rw [hs] at hskip hclause hscoped
    cases key with
    | enum => exact (parse_enum hskip).trans ((congrArg _ hscoped).trans hclause)
    | enumClass => exact (parse_enum hskip).trans hclause
    | enumStruct => exact (parse_enum hskip).trans hclause

/-! ### The text -/

/-- The first token is a word, and there are others before the colon. -/
theorem exists_frontTokens (h : FullHeader) :
    ∃ w ws, h.frontTokens = w :: ws ∧ ws ≠ [] ∧ IsIdentifier w := by
  unfold frontTokens templateTokens
  cases h.template with
  | some ts => exact ⟨"template", _, rfl, by simp, by decide⟩
  | none =>
    obtain ⟨w, ws, hwords, -⟩ := h.sort.exists_words
    have hw := h.sort.isIdentifier_words w (by simp [hwords])
    exact ⟨w, ws ++ h.nameTokens, by simp [hwords], by simp [nameTokens], hw⟩

theorem Canonical.isComplete_frontTokens (hc : h.Canonical)
    (hinner : ∀ w ∈ h.inner, isComplete w = true) : ∀ w ∈ h.frontTokens, isComplete w = true := by
  obtain ⟨htemplate, hornaments⟩ := List.forall_mem_append.1 hinner
  have hsort : ∀ w ∈ h.sort.words, isComplete w = true :=
    fun w hw => isComplete_of_isWord (h.sort.isIdentifier_words w hw)
  refine List.forall_mem_append.2 ⟨?_, List.forall_mem_append.2
    ⟨hsort, List.forall_mem_append.2 ⟨fun w hw => ?_, ?_⟩⟩⟩
  · unfold templateTokens
    cases ht : h.template with
    | none => simp
    | some ts =>
      have hmarks : ∀ w ∈ ["template", "<", ">"], isComplete w = true := by decide
      rw [ht] at htemplate
      simpa [or_imp, forall_and] using ⟨hmarks "template" (by simp), hmarks "<" (by simp),
        htemplate, hmarks ">" (by simp)⟩
  · obtain ⟨o, ho, hmem⟩ := List.mem_flatMap.1 hw
    exact (hc.ornaments o ho).isComplete_tokens
      (fun v hv => hornaments v (List.mem_flatMap.2 ⟨o, ho, hv⟩)) w hmem
  · refine List.forall_mem_cons.2 ⟨isComplete_of_isWord hc.name.1, ?_⟩
    cases h.isFinal <;> decide

/-- With spaces between the tokens before the colon, a header's text falls into its tokens. -/
theorem Canonical.tokens_text (hc : h.Canonical) (hinner : ∀ w ∈ h.inner, isComplete w = true) :
    Declaration.tokens h.text = h.tokens := by
  obtain ⟨w, ws, hfront, hne, hw⟩ := h.exists_frontTokens
  have hws := hc.isComplete_frontTokens hinner
  rw [hfront] at hws
  have hspells := (Spells.identifier hw).beforeWords (toList_ne_nil (ne_empty_of_isIdentifier hw))
    rfl hne (List.forall_mem_cons.1 hws).2
  obtain ⟨g, hall⟩ := hc.sort.exists_spells hspells (by simp) rfl
  refine tokens_of_spells (f := g) ?_
  rw [text, tokens, hfront, String.intercalate_cons_of_ne_nil hne]
  simpa using hall

/-- **The headers of containers are read back.** Whatever template, words and groups in brackets
stand before its name, and whatever words before the types of its bases, a header is read off every
text that falls into its tokens: its kind, its name, and its bases in order or its underlying type.
The text with spaces between the tokens before the colon is one, if the tokens in brackets there are
complete. -/
theorem parse_spaced (hc : h.Canonical) :
    (∀ text, Declaration.tokens text = h.tokens →
      Header.parse text = .ok ⟨h.sort.kind, h.name, h.sort.bases, h.sort.underlying⟩) ∧
    ((∀ w ∈ h.inner, isComplete w = true) →
      Header.parse h.text = .ok ⟨h.sort.kind, h.name, h.sort.bases, h.sort.underlying⟩) :=
  ⟨fun _ htext => hc.parse_tokens htext, fun hinner => hc.parse_tokens (hc.tokens_text hinner)⟩

theorem parse_spaced_player :
    Header.parse ("template <typename T = Map<int, int>> class GAME_API alignas(16) Player " ++
      "final : public Pawn, private virtual ns::Listener<Player>") =
        .ok ⟨.class, "Player", [.named "Pawn",
          { name := "ns::Listener", arguments := [.named "Player"] }], none⟩ ∧
    Header.parse "enum class Team : unsigned" =
      .ok ⟨.enum, "Team", [], some (.named "unsigned")⟩ := by
  have hpawn : SpecifiedBase.Canonical ⟨["public"], .named "Pawn"⟩ :=
    ⟨by decide, TypeRef.canonical_named (by decide)⟩
  have hlistener : SpecifiedBase.Canonical ⟨["private", "virtual"],
      { name := "ns::Listener", arguments := [.named "Player"] }⟩ :=
    ⟨by decide, .intro (.of_words [["ns", "Listener"]] (by decide) (by decide))
      (by simpa using TypeRef.canonical_named (by decide))⟩
  have hornaments : ∀ o ∈ [.word "GAME_API", .word "alignas", .round ["16"]],
      Ornament.Canonical o := by decide
  have hplayer : Canonical
      { template := some ["typename", "T", "=", "Map", "<", "int", ",", "int", ">"]
        sort := .record .class [⟨["public"], .named "Pawn"⟩, ⟨["private", "virtual"],
          { name := "ns::Listener", arguments := [.named "Player"] }⟩]
        ornaments := [.word "GAME_API", .word "alignas", .round ["16"]]
        name := "Player"
        isFinal := true } :=
    ⟨by simp; decide, List.forall_mem_cons.2 ⟨hpawn, List.forall_mem_singleton.2 hlistener⟩,
      hornaments, by decide⟩
  have hteam : Canonical
      { template := none
        sort := .enum .enumClass (some (.named "unsigned"))
        ornaments := []
        name := "Team"
        isFinal := false } :=
    ⟨by simp, by simpa [HeaderSort.Canonical] using TypeRef.canonical_named (by decide), by simp,
      by decide⟩
  exact ⟨(parse_spaced hplayer).1 _ (by decide +kernel), (parse_spaced hteam).2 (by simp [inner])⟩

end FullHeader

end HeaderReflection
