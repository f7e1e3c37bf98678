import HeaderReflection.Declaration.Function
import HeaderReflection.Proofs.Declaration.Types
import HeaderReflection.Proofs.Outcome

/-!
# Members read back

* `Variable.parse_text`: a canonical variable is read off its text.
* `Signature.parse_text`: a canonical signature is read off its text.
-/

namespace HeaderReflection

open Declaration

variable {weight : String → Int} {mark : String → Prop}

/-- A word leads nowhere. -/
theorem leads_word {s : String} (hw : TypeRef.WeighsTypes weight mark) (hs : IsIdentifier s) :
    Leads weight mark 0 [s] 0 := by
  have hnot : s ∉ delimiters := fun hm =>
    not_isIdentifier_of_mark (List.mem_cons_of_mem _ (List.mem_cons_of_mem _
      (List.mem_cons_of_mem _ hm))) hs
  refine .plain (Int.le_refl 0) fun u hu => ?_
  rw [List.mem_singleton.1 hu]
  exact ⟨hw.plain s hnot, fun hm => hnot (hw.marks s hm).1⟩

/-- A word behind a type is a name. -/
theorem TypeRef.Canonical.endsInName_word {others : List String} {isArgument : Bool} {t : TypeRef}
    (h : t.Canonical others isArgument) {n : String} (hn : IsPlainWord [] n) :
    endsInName (n :: t.tokens.reverse) = true := by
  obtain ⟨s, hs, hscope⟩ := h.getLast?_tokens
  obtain ⟨before, hbefore⟩ := List.getLast?_eq_some_iff.1 hs
  have hreserved := hn.2.1
  simp only [reservedWords, List.mem_cons, not_or] at hreserved
  rw [hbefore, List.reverse_append]
  simp [endsInName, isWord_of_isIdentifier hn.1, hscope, hreserved]

/-! ## Variables -/

namespace Variable

/-- A variable whose text is read as the variable. -/
structure Canonical (v : Variable) : Prop where
  type : v.type.Canonical [] false
  name : IsPlainWord [] v.name

/-- The text of a variable: its type and its name. -/
def text (v : Variable) : String :=
  v.type.render ++ " " ++ v.name

/-- The tokens of a variable's text. -/
def tokens (v : Variable) : List String :=
  v.type.tokens ++ [v.name]

variable {v : Variable}

theorem Canonical.spells_text (h : v.Canonical) :
    Spells v.text.toList v.tokens isBreak ∧ v.text ≠ "" := by
  obtain ⟨htype, hne⟩ := h.type.spells_render
  exact ⟨htype.beforeWord hne h.name.1,
    append_ne_empty_right (ne_empty_of_isIdentifier h.name.1) _⟩

theorem Canonical.leads_tokens (h : v.Canonical) (hw : TypeRef.WeighsTypes weight mark) :
    Leads weight mark 0 v.tokens 0 :=
  (h.type.leads_tokens hw).append (leads_word hw h.name.1)

/-- A canonical variable is read off its tokens. -/
theorem Canonical.variableOf_tokens (h : v.Canonical) : variableOf v.tokens = .ok v := by
  have hleads : Leads bracketDepth (· ∈ ["=", "\x7b", ":"]) 0 v.tokens 0 :=
    h.leads_tokens (.declaration (by decide))
  have hbracket : v.name ≠ "]" := by
    intro hname
    exact not_isIdentifier_of_mark (by decide) (hname ▸ h.name.1)
  have hstrip : stripBounds false (v.name :: v.type.tokens.reverse) =
      some (v.name :: v.type.tokens.reverse, false) := by
    rw [stripBounds, if_neg hbracket]
  have hnamed : endsInName (v.name :: v.type.tokens.reverse) = true := h.type.endsInName_word h.name
  have htype : TypeRef.ofTokens v.type.tokens = v.type := h.type.ofTokens_tokens
  have hname : v.type.name ≠ "" := h.type.name_ne_empty
  unfold variableOf
  rw [breakTop_of_leads hleads, tokens, List.reverse_append, List.reverse_singleton,
    List.singleton_append, hstrip]
  simp only [hnamed, if_true, List.reverse_reverse, htype, hname, if_false, Bool.or_false]
  obtain ⟨⟨name, isConst, isPointer, isReference, isArray, arguments⟩, variableName⟩ := v
  rfl

/-- A canonical variable is read off its text. -/
theorem Canonical.parse_text (h : v.Canonical) : Variable.parse v.text = .ok v := by
  rw [Variable.parse, tokens_of_spells h.spells_text.1, h.variableOf_tokens]

end Variable

/-! ## Functions -/

/-- Parameters are read one by one, if brackets are closed in each and no comma stands outside
them. -/
theorem parameters_intercalate {parts : List (List String)} (hne : ∀ part ∈ parts, part ≠ [])
    (hleads : ∀ part ∈ parts, Leads bracketDepth (· = ",") 0 part 0) (hvoid : parts ≠ [["void"]])
    (function : String) :
    parameters function ([","].intercalate parts) = parametersOf function 0 parts := by
  cases parts with
  | nil => rfl
  | cons part parts =>
    have hpart := hne part List.mem_cons_self
    have hsome : ¬([","].intercalate (part :: parts) = [] ∨
        [","].intercalate (part :: parts) = ["void"]) := by
      cases parts with
      | nil =>
        rw [List.intercalate_singleton]
        exact not_or.2 ⟨hpart, fun hv => hvoid (by rw [hv])⟩
      | cons next parts =>
        have hlong := List.length_pos_iff.2 hpart
        rw [List.intercalate_cons_cons]
        rintro (heq | heq)
        · simp at heq
        · have := congrArg List.length heq
          simp only [List.length_append, List.length_singleton] at this
          omega
    unfold parameters
    rw [if_neg (by simpa using hsome), splitTop_intercalate (by simp) hleads]

theorem parametersOf_tokens {ps : List Variable} (h : ∀ p ∈ ps, p.Canonical) (function : String)
    (place : Nat) : parametersOf function place (ps.map Variable.tokens) = .ok ps := by
  induction ps generalizing place with
  | nil => rfl
  | cons p ps ih =>
    have hp := h p List.mem_cons_self
    have hname : p.name ≠ "" := ne_empty_of_isIdentifier hp.name.1
    have hone : parameterOf function place p.tokens = .ok p := by
      unfold parameterOf
      rw [hp.variableOf_tokens]
      simp [hname]
    rw [List.map_cons, parametersOf, hone, ih fun q hq => h q (List.mem_cons_of_mem _ hq)]
    rfl

theorem parameters_tokens {ps : List Variable} (h : ∀ p ∈ ps, p.Canonical) (function : String) :
    parameters function ([","].intercalate (ps.map Variable.tokens)) = .ok ps := by
  have hlong : ∀ p ∈ ps, 2 ≤ p.tokens.length := by
    intro p hp
    have htype := List.length_pos_iff.2 (h p hp).type.tokens_ne_nil
    rw [Variable.tokens, List.length_append, List.length_singleton]
    omega
  rw [parameters_intercalate, parametersOf_tokens h]
  · rw [List.forall_mem_map]
    intro p hp hnil
    have := hlong p hp
    rw [hnil] at this
    cases this
  · rw [List.forall_mem_map]
    exact fun p hp => (h p hp).leads_tokens (.declaration (by rintro _ rfl; decide))
  · intro hvoid
    obtain ⟨p, rfl, hp⟩ := List.map_eq_singleton_iff.1 hvoid
    have := hlong p List.mem_cons_self
    rw [hp] at this
    simp at this

namespace Signature

/-- A signature whose text is read as the signature. -/
structure Canonical (s : Signature) : Prop where
  returnType : s.returnType.Canonical [] false
  name : IsIdentifier s.name
  parameters : ∀ p ∈ s.parameters, p.Canonical

/-- The text of a signature. -/
def text (s : Signature) : String :=
  (if s.isStatic then "static " else "") ++ s.returnType.render ++ " " ++ s.name
    ++ parameterList s.parameters ++ (if s.isConst then " const" else "")

/-- The tokens before a signature's name. -/
def leadingTokens (s : Signature) : List String :=
  (if s.isStatic then ["static"] else []) ++ s.returnType.tokens

/-- The tokens of a signature's text. -/
def tokens (s : Signature) : List String :=
  s.leadingTokens ++ [s.name] ++ "(" :: ([","].intercalate (s.parameters.map Variable.tokens) ++
    ")" :: (if s.isConst then ["const"] else []))

variable {s : Signature}

theorem leads_leadingTokens (htype : s.returnType.Canonical [] false) (hname : IsIdentifier s.name)
    (hw : TypeRef.WeighsTypes weight mark) :
    Leads weight mark 0 (s.leadingTokens ++ [s.name]) 0 := by
  refine .append (.append ?_ (htype.leads_tokens hw)) (leads_word hw hname)
  cases s.isStatic
  · rfl
  · exact leads_word hw (by decide)

theorem leads_parameters {ps : List Variable} (h : ∀ p ∈ ps, p.Canonical)
    (hw : TypeRef.WeighsTypes weight fun _ => False) :
    Leads weight (fun _ => False) 0 ([","].intercalate (ps.map Variable.tokens)) 0 := by
  refine .intercalate hw.comma id fun part hpart => ?_
  obtain ⟨p, hp, rfl⟩ := List.mem_map.1 hpart
  exact (h p hp).leads_tokens hw

theorem returnType_leadingTokens (htype : s.returnType.Canonical [] false) :
    Declaration.returnType s.leadingTokens = s.returnType := by
  have hword : s.leadingTokens.any (fun t => isWord t && !qualifiers.contains t) = true := by
    obtain ⟨t, ht, hplain⟩ := htype.exists_word
    have hqualifier : t ∉ qualifiers := fun hm => hplain.2.1 (List.mem_cons_of_mem _ hm)
    refine List.any_eq_true.2 ⟨t, List.mem_append_right _ ht, ?_⟩
    simp [isWord_of_isIdentifier hplain.1, hqualifier]
  unfold Declaration.returnType
  rw [if_pos hword, leadingTokens]
  cases s.isStatic
  · exact htype.ofTokens_tokens
  · have hstatic : ∀ rest, collectType {} false ("static" :: rest) = collectType {} false rest := by
      intro rest
      rw [collectType]
      simp [extendType, qualifiers]
    rw [if_pos rfl, List.singleton_append, TypeRef.ofTokens, hstatic]
    exact htype.ofTokens_tokens

theorem contains_static (htype : s.returnType.Canonical [] false) :
    s.leadingTokens.contains "static" = s.isStatic := by
  have hnot : "static" ∉ s.returnType.tokens := by
    intro hmem
    rcases htype.mem_tokens hmem with hm | hm | hm
    · exact absurd hm (by decide)
    · exact absurd hm.2.1 (by decide)
    · exact absurd hm (by decide)
  unfold leadingTokens
  cases s.isStatic <;> simp [hnot]

/-- The tokens behind a signature's parameter list. -/
def trailingTokens (s : Signature) : List String :=
  if s.isConst then ["const"] else []

theorem contains_const (s : Signature) :
    (breakTop ["="] 0 s.trailingTokens).1.contains "const" = s.isConst := by
  unfold trailingTokens
  cases s.isConst <;> decide

/-- What stands before the parameter list of a signature is read off its tokens, whatever the
parameter list is. -/
theorem signatureOf_leadingTokens (htype : s.returnType.Canonical [] false)
    (hname : IsIdentifier s.name) (rest : List String) :
    signatureOf (s.leadingTokens ++ [s.name] ++ "(" :: rest) =
      match closeGroup 1 rest with
      | none => .error .unbalancedParameters
      | some (group, trailing) => (Declaration.parameters s.name group.dropLast).map fun ps =>
          { s with
            parameters := ps
            isConst := (breakTop ["="] 0 trailing).1.contains "const" } := by
  have hhead : breakTop ["("] 0 (s.leadingTokens ++ [s.name] ++ "(" :: rest) =
      (s.leadingTokens ++ [s.name], "(" :: rest) :=
    breakTop_mark (leads_leadingTokens htype hname (.declaration (by decide))) (by decide) _
  have hsplit : splitName? (s.leadingTokens ++ [s.name]) = some (s.leadingTokens, s.name) := by
    simp [splitName?, isWord_of_isIdentifier hname]
  unfold signatureOf
  rw [hhead]
  rcases hclose : closeGroup 1 rest with _ | ⟨group, trailing⟩
  · simp only [hclose]
  · simp only [hclose, hsplit, returnType_leadingTokens htype, contains_static htype]
    cases Declaration.parameters s.name group.dropLast <;> rfl

/-- The parameters of a signature are read off the tokens between its parentheses, if brackets are
closed in them. -/
theorem signatureOf_parameters (htype : s.returnType.Canonical [] false)
    (hname : IsIdentifier s.name) {ts : List String}
    (hts : Leads bracketDepth (fun _ => False) 0 ts 0) :
    signatureOf (s.leadingTokens ++ [s.name] ++ "(" :: (ts ++ ")" :: s.trailingTokens)) =
      (Declaration.parameters s.name ts).map fun ps => { s with parameters := ps } := by
  rw [signatureOf_leadingTokens htype hname, closeGroup_group hts ")" (by decide)]
  simp only [List.dropLast_concat, contains_const]

/-- A canonical signature is read off its tokens. -/
theorem Canonical.signatureOf_tokens (h : s.Canonical) : signatureOf s.tokens = .ok s := by
  have hparameters := leads_parameters h.parameters (.declaration fun _ => False.elim)
  have hall := signatureOf_parameters h.returnType h.name hparameters
  rw [parameters_tokens h.parameters] at hall
  exact hall

theorem parameterList_eq (ps : List Variable) : parameterList ps =
    "(" ++ ", ".intercalate (ps.map Variable.text) ++ ")" := rfl

theorem spells_parameterList {ps : List Variable} (h : ∀ p ∈ ps, p.Canonical) :
    Spells (parameterList ps).toList
      ("(" :: ([","].intercalate (ps.map Variable.tokens) ++ [")"])) isBreak := by
  have hinner := (Spells.intercalate fun p hp => (h p hp).spells_text).append
    (.mark (c := ')') rfl isBreak) (by rintro c ⟨⟩; rfl) (by simp)
  have hall := (Spells.mark (c := '(') rfl fun _ => true).append hinner (by simp) (by simp)
  rw [parameterList_eq]
  simpa using hall

/-- The text of a signature spells its tokens, if its parameter list does. -/
theorem spells_around (htype : s.returnType.Canonical [] false) (hname : IsIdentifier s.name)
    (inner : String) {ts : List String}
    (hinner : Spells ("(" ++ inner ++ ")").toList ("(" :: (ts ++ [")"])) isBreak) :
    Spells ((if s.isStatic then "static " else "") ++ s.returnType.render ++ " " ++ s.name
        ++ ("(" ++ inner ++ ")") ++ (if s.isConst then " const" else "")).toList
      (s.leadingTokens ++ [s.name] ++ "(" :: (ts ++ ")" :: s.trailingTokens)) isBreak := by
  obtain ⟨htype, htypeNe⟩ := htype.spells_render
  have hcore := (htype.beforeWord htypeNe hname).append hinner (by simp; decide) (by simp)
  rw [← String.toList_append] at hcore
  have hconst : Spells (s.returnType.render ++ " " ++ s.name ++ ("(" ++ inner ++ ")") ++
        if s.isConst then " const" else "").toList
      (s.returnType.tokens ++ [s.name] ++ "(" :: (ts ++ ")" :: s.trailingTokens)) isBreak := by
    unfold trailingTokens
    cases s.isConst
    · simpa using hcore
    · have hall := hcore.beforeWord (by simp [htypeNe]) (show IsIdentifier "const" by decide)
      simpa [String.append_assoc] using hall
  unfold leadingTokens
  cases s.isStatic
  · simpa [String.append_assoc] using hconst
  · have hall := hconst.behindWord (by simp [htypeNe]) (show IsIdentifier "static" by decide)
    simpa [String.append_assoc] using hall

/-- The text of a canonical signature spells its tokens. -/
theorem Canonical.spells_text (h : s.Canonical) :
    Spells s.text.toList s.tokens isBreak ∧ s.text ≠ "" := by
  refine ⟨spells_around h.returnType h.name _ (spells_parameterList h.parameters), ?_⟩
  unfold text
  simp [String.append_eq_empty_iff, h.returnType.spells_render.2]

/-- A canonical signature is read off its text. -/
theorem Canonical.parse_text (h : s.Canonical) : Signature.parse s.text = .ok s := by
  rw [Signature.parse, tokens_of_spells h.spells_text.1, h.signatureOf_tokens]

end Signature

end HeaderReflection
