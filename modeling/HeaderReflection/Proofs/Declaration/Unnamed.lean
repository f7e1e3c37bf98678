import HeaderReflection.Proofs.Declaration.Prototypes

/-!
# Unnamed declarations

The last word of a declaration is taken for its name, unless it is the only token or a scope mark
stands before it. So a type alone is read as such, unless it ends in a word of its name behind
another word, be it `const`.

* `TypeName.Canonical.ending`: how the tokens of a name end.
* `TypeRef.Canonical.ending`: whether the last token of a type is taken for a name.
* `TypeRef.parse_unnamed_iff`: which types are read back without a name, alone and as parameters.
-/

namespace HeaderReflection

open Declaration

/-! ## The last word of a name -/

/-- The last word of a name, reversed. -/
def lastWord (name : String) : List Char :=
  name.toList.reverse.takeWhile (· ≠ ' ')

theorem not_mem_of_isIdentifier {s : String} (h : IsIdentifier s) :
    ' ' ∉ s.toList ∧ ':' ∉ s.toList := by
  constructor <;> (intro hc; exact absurd (Token.isWordChar_of_mem h hc) (by decide))

theorem lastWord_append {s : String} (h : ' ' ∉ s.toList) (front : String) :
    lastWord (front ++ s) = s.toList.reverse ++ lastWord front := by
  have hall : ∀ c ∈ s.toList.reverse, decide (c ≠ ' ') = true := by
    intro c hc
    rw [List.mem_reverse] at hc
    rw [decide_eq_true_eq]
    rintro rfl
    exact h hc
  unfold lastWord
  rw [String.toList_append, List.reverse_append, List.takeWhile_append_of_pos hall]

theorem lastWord_space (front : String) : lastWord (front ++ " ") = [] := by
  simp [lastWord]

theorem intersperse_concat {path : List String} (hne : path ≠ []) (mark s : String) :
    (path ++ [s]).intersperse mark = path.intersperse mark ++ [mark, s] := by
  induction path with
  | nil => exact absurd rfl hne
  | cons t path ih =>
    cases path with
    | nil => rfl
    | cons next path =>
      have hrest := ih (by simp)
      rw [List.cons_append] at hrest
      rw [List.cons_append, List.cons_append, List.intersperse_cons_cons, hrest,
        List.intersperse_cons_cons]
      rfl

theorem intercalate_concat_append (separator : String) (words : List String) (s t : String) :
    separator.intercalate (words ++ [s ++ t]) = separator.intercalate (words ++ [s]) ++ t := by
  by_cases hwords : words = []
  · simp [hwords]
  · simp [String.intercalate_append_of_ne_nil, hwords, String.append_assoc]

/-- A name ends in a word behind a scope mark, is a word, or ends in a word behind other words. -/
theorem TypeName.Canonical.ending {others : List String} {n : TypeName} (h : n.Canonical others) :
    ∃ s, IsPlainWord others s ∧
      ((∃ front ts, n.text = front ++ "::" ++ s ∧ n.tokens = ts ++ ["::", s]) ∨
        n.text = s ∧ n.tokens = [s] ∨
        ∃ m : TypeName, m.Canonical others ∧ n.text = m.text ++ " " ++ s ∧
          n.tokens = m.tokens ++ [s]) := by
  obtain ⟨isAbsolute, words⟩ := n
  obtain ⟨path, hpath⟩ := Option.ne_none_iff_exists'.1 fun hn =>
    h.ne_nil (List.getLast?_eq_none_iff.1 hn)
  obtain ⟨words, rfl⟩ := List.getLast?_eq_some_iff.1 hpath
  obtain ⟨hne, hplain⟩ := h.isPlainWord path (by simp)
  obtain ⟨s, hs⟩ := Option.ne_none_iff_exists'.1 fun hn => hne (List.getLast?_eq_none_iff.1 hn)
  obtain ⟨path, rfl⟩ := List.getLast?_eq_some_iff.1 hs
  refine ⟨s, hplain s (by simp), ?_⟩
  by_cases hfront : path = []
  · subst hfront
    by_cases hwords : words = []
    · subst hwords
      cases isAbsolute
      · exact .inr (.inl ⟨by simp [text], by simp [tokens]⟩)
      · exact .inl ⟨"", [], by simp [text], by simp [tokens]⟩
    · refine .inr (.inr ⟨⟨isAbsolute, words⟩,
        ⟨hwords, fun w hw => h.isPlainWord w (List.mem_append_left _ hw)⟩, ?_, ?_⟩)
      · simp [text, String.intercalate_append_of_ne_nil, hwords, String.append_assoc]
      · simp [tokens]
  · have hword : "::".intercalate (path ++ [s]) = "::".intercalate path ++ ("::" ++ s) := by
      simp [String.intercalate_append_of_ne_nil, hfront, String.append_assoc]
    refine .inl ⟨text ⟨isAbsolute, words ++ [path]⟩, tokens ⟨isAbsolute, words ++ [path]⟩ , ?_, ?_⟩
    · unfold text
      rw [List.map_append, List.map_singleton, hword, intercalate_concat_append]
      simp [String.append_assoc]
    · simp [tokens, intersperse_concat hfront]

/-! ## The last token of a type -/

namespace TypeRef

/-- The type ends in a word of its name behind another word: it has neither arguments nor the marks
of a pointer or a reference, no scope mark stands in the last word of its name, and `const` or
another word of the name stands before that word. -/
def EndsInLooseWord (t : TypeRef) : Prop :=
  t.isPointer = false ∧ t.isReference = false ∧ t.arguments = [] ∧
    ':' ∉ lastWord t.name ∧ (t.isConst = true ∨ ' ' ∈ t.name.toList)

instance : DecidablePred EndsInLooseWord :=
  fun _ => inferInstanceAs (Decidable (_ ∧ _ ∧ _ ∧ _ ∧ (_ ∨ _)))

/-- Whether the last token of a type is taken for a name. -/
inductive Ending (t : TypeRef) : Prop
  /-- It is not, and all tokens are taken for the type. -/
  | whole (last : String) (before : List String) (tokens : t.tokens.reverse = last :: before)
      (bracket : last ≠ "]") (unnamed : endsInName (last :: before) = false)
      (tight : ¬t.EndsInLooseWord)
  /-- It is, and what is left is another type. -/
  | parted (last : String) (before : List String) (tokens : t.tokens.reverse = last :: before)
      (bracket : last ≠ "]") (named : endsInName (last :: before) = true)
      (other : (ofTokens before.reverse).name ≠ t.name) (loose : t.EndsInLooseWord)

theorem endsInName_of_not_isWord {last : String} (h : isWord last = false) (before : List String) :
    endsInName (last :: before) = false := by
  cases before <;> simp [endsInName, h]

variable {t : TypeRef}

/-- The last token of a type that has arguments or marks is no word. -/
theorem ending_of_marks (ha : t.isArray = false)
    (h : ¬(t.isPointer = false ∧ t.isReference = false ∧ t.arguments = [])) : t.Ending := by
  have hmark : ∀ m ∈ ["*", "&", ">"], m ≠ "]" ∧ isWord m = false := by decide
  obtain ⟨m, hm, hlast⟩ : ∃ m ∈ ["*", "&", ">"], t.tokens.getLast? = some m := by
    rw [tokens_eq, ha]
    by_cases hr : t.isReference = true
    · exact ⟨"&", by decide, by simp [hr, suffixTokens]⟩
    by_cases hp : t.isPointer = true
    · exact ⟨"*", by decide, by simp [hr, hp, suffixTokens]⟩
    cases harguments : t.arguments with
    | nil => exact absurd ⟨by simpa using hp, by simpa using hr, harguments⟩ h
    | cons a args => exact ⟨">", by decide, by simp [hr, hp, suffixTokens, getLast?_argumentTokens]⟩
  obtain ⟨before, htokens⟩ := List.getLast?_eq_some_iff.1 hlast
  obtain ⟨hbracket, hword⟩ := hmark m hm
  exact .whole m before.reverse (by simp [htokens]) hbracket
    (endsInName_of_not_isWord hword _) fun hloose => h ⟨hloose.1, hloose.2.1, hloose.2.2.1⟩

/-- A type that is spelled by its name alone, with `const` before it or not. -/
structure IsPlain (t : TypeRef) : Prop where
  isPointer : t.isPointer = false
  isReference : t.isReference = false
  isArray : t.isArray = false
  arguments : t.arguments = []

namespace IsPlain

variable {s : String}

theorem tokens_eq (h : t.IsPlain) :
    t.tokens = (if t.isConst then ["const"] else []) ++ Declaration.tokens t.name := by
  simp [TypeRef.tokens_eq, h.isPointer, h.isReference, h.isArray, h.arguments, argumentTokens,
    suffixTokens]

theorem endsInLooseWord_iff (h : t.IsPlain) : t.EndsInLooseWord ↔
    ':' ∉ lastWord t.name ∧ (t.isConst = true ∨ ' ' ∈ t.name.toList) := by
  simp [EndsInLooseWord, h.isPointer, h.isReference, h.arguments]

theorem ne_bracket (hs : IsPlainWord [] s) : s ≠ "]" :=
  fun hb => not_isIdentifier_of_mark (by decide) (hb ▸ hs.1)

/-- A scope mark stands before the last word of the name. -/
theorem ending_scoped (h : t.IsPlain) (hs : IsPlainWord [] s) {front : String} {ts : List String}
    (hname : t.name = front ++ "::" ++ s) (hts : Declaration.tokens t.name = ts ++ ["::", s]) :
    t.Ending := by
  refine .whole s ("::" :: ((if t.isConst then ["const"] else []) ++ ts).reverse)
    (by simp [h.tokens_eq, hts]) (ne_bracket hs) (by simp [endsInName]) ?_
  have hscope : lastWord (front ++ "::") = [':', ':'] ++ lastWord front :=
    lastWord_append (s := "::") (by decide) front
  rw [h.endsInLooseWord_iff, hname, lastWord_append (not_mem_of_isIdentifier hs.1).1, hscope]
  simp

/-- The name is one word. -/
theorem ending_alone (h : t.IsPlain) (hs : IsPlainWord [] t.name) : t.Ending := by
  have hts : Declaration.tokens t.name = [t.name] := tokens_of_spells (Spells.word hs.1)
  obtain ⟨hspace, hcolon⟩ := not_mem_of_isIdentifier hs.1
  by_cases hconst : t.isConst = true
  · refine .parted t.name ["const"] (by simp [h.tokens_eq, hts, hconst]) (ne_bracket hs) ?_ ?_ ?_
    · have hreserved := hs.2.1
      simp only [reservedWords, List.mem_cons, not_or] at hreserved
      simp [endsInName, isWord_of_isIdentifier hs.1, hreserved]
    · have hread : ofTokens ["const"] = { isConst := true } :=
        (collectType_const true []).trans (by rw [collectType])
      rw [List.reverse_singleton, hread]
      exact (ne_empty_of_isIdentifier hs.1).symm
    · have hword : lastWord t.name = t.name.toList.reverse := by
        simpa [lastWord] using lastWord_append hspace ""
      rw [h.endsInLooseWord_iff, hword]
      exact ⟨by simpa using hcolon, .inl hconst⟩
  · refine .whole t.name [] (by simp [h.tokens_eq, hts, hconst]) (ne_bracket hs) rfl ?_
    rw [h.endsInLooseWord_iff]
    rintro ⟨-, hc | hc⟩
    · exact hconst hc
    · exact hspace hc

/-- Another word of the name stands before the last one. What is left is a type with a shorter
name. -/
theorem ending_behind (h : t.IsPlain) (hs : IsPlainWord [] s) {m : TypeName} (hm : m.Canonical [])
    (hname : t.name = m.text ++ " " ++ s) (hts : Declaration.tokens t.name = m.tokens ++ [s]) :
    t.Ending := by
  obtain ⟨hspace, hcolon⟩ := not_mem_of_isIdentifier hs.1
  have hleft : TypeRef.Canonical [] false { t with name := m.text } :=
    .intro (.inl ⟨m, hm, rfl⟩) (by simp [h.arguments])
  have hplain : IsPlain { t with name := m.text } :=
    ⟨h.isPointer, h.isReference, h.isArray, h.arguments⟩
  refine .parted s (TypeRef.tokens { t with name := m.text }).reverse
    (by simp [h.tokens_eq, hplain.tokens_eq, hts, hm.worded.tokens_text]) (ne_bracket hs)
    (hleft.endsInName_word hs) ?_ ?_
  · rw [List.reverse_reverse, hleft.ofTokens_tokens, hname]
    intro hsame
    have hlength := congrArg String.length hsame
    simp only [String.length_append, show " ".length = 1 from rfl] at hlength
    omega
  · rw [h.endsInLooseWord_iff, hname, lastWord_append hspace, lastWord_space]
    exact ⟨by simpa using hcolon, .inr (by simp)⟩

end IsPlain

/-- The last token of a type is taken for a name just if the type ends in a loose word. -/
theorem Canonical.ending (h : t.Canonical [] false) (ha : t.isArray = false) : t.Ending := by
  by_cases hmarks : t.isPointer = false ∧ t.isReference = false ∧ t.arguments = []
  · have hplain : t.IsPlain := ⟨hmarks.1, hmarks.2.1, ha, hmarks.2.2⟩
    obtain ⟨n, hn, hname⟩ : ∃ n : TypeName, n.Canonical [] ∧ n.text = t.name := by
      cases h with
      | intro name _ => simpa [IsTypeName] using name
    have htokens := hn.worded.tokens_text
    obtain ⟨s, hs, ⟨front, ts, htext, hts⟩ | ⟨htext, -⟩ | ⟨m, hm, htext, hts⟩⟩ := hn.ending
    · rw [hts, hname] at htokens
      exact hplain.ending_scoped hs (hname ▸ htext) htokens
    · rw [← htext, hname] at hs
      exact hplain.ending_alone hs
    · rw [hts, hname] at htokens
      exact hplain.ending_behind hs hm (hname ▸ htext) htokens
  · exact ending_of_marks ha hmarks

/-! ## Types without names -/

theorem Canonical.withArray (h : t.Canonical [] false) (isArray : Bool) :
    TypeRef.Canonical [] false { t with isArray } := by
  cases h with
  | intro name arguments => exact .intro name arguments

theorem tokens_withArray (t : TypeRef) :
    t.tokens = TypeRef.tokens { t with isArray := false } ++
      (if t.isArray then ["[", "]"] else []) := by
  simp [tokens_eq, suffixTokens]

theorem stripBounds_bounds (array : Bool) (before : List String) :
    stripBounds array ("]" :: "[" :: before) = stripBounds true before := by
  rw [stripBounds, if_pos rfl]
  split
  · rename_i hnone
    simp at hnone
  · rename_i hopen
    simp only [ne_eq, not_true_eq_false, decide_false, Bool.false_eq_true, not_false_eq_true,
      List.dropWhile_cons_of_neg, List.cons.injEq] at hopen
    rw [hopen.2]

/-- The brackets of an array are stripped off a type. -/
theorem stripBounds_tokens {last : String} {before : List String}
    (h : (TypeRef.tokens { t with isArray := false }).reverse = last :: before)
    (hbracket : last ≠ "]") :
    stripBounds false t.tokens.reverse = some (last :: before, t.isArray) := by
  have hrest : ∀ array, stripBounds array (last :: before) = some (last :: before, array) := by
    intro array
    rw [stripBounds, if_neg hbracket]
  rw [tokens_withArray, List.reverse_append, h]
  cases t.isArray
  · exact hrest false
  · rw [if_pos rfl, show (["[", "]"] : List String).reverse = ["]", "["] from rfl,
      List.cons_append, List.singleton_append, stripBounds_bounds]
    exact hrest true

theorem Canonical.breakTop_tokens (h : t.Canonical [] false) :
    (breakTop initializerMarks 0 t.tokens).1 = t.tokens := by
  have hleads : Leads bracketDepth (· ∈ initializerMarks) 0 t.tokens 0 :=
    h.leads_tokens (.declaration (by decide))
  rw [breakTop_of_leads hleads]

/-- A type that does not end in a loose word is read as a type without a name. -/
theorem Canonical.variableOf_tokens (h : t.Canonical [] false) (htight : ¬t.EndsInLooseWord) :
    variableOf t.tokens = .ok ⟨t, ""⟩ := by
  have hplain := h.withArray false
  cases hplain.ending rfl with
  | whole last before htokens hbracket hunnamed _ =>
    have hstrip := stripBounds_tokens htokens hbracket
    have hall : (last :: before).reverse = TypeRef.tokens { t with isArray := false } := by
      rw [← htokens, List.reverse_reverse]
    have hread : declared last before t.isArray = ⟨t, ""⟩ := by
      unfold declared
      simp only [hunnamed, Bool.false_eq_true, if_false, hall, hplain.ofTokens_tokens,
        Bool.false_or]
      cases t
      rfl
    rw [variableOf_eq (by rw [h.breakTop_tokens]; exact hstrip), hread, if_neg h.name_ne_empty]
  | parted _ _ _ _ _ _ hloose => exact absurd hloose htight

/-- A type that ends in a loose word is read as another type, if at all. -/
theorem Canonical.tight_of_variableOf (h : t.Canonical [] false) {v : Variable}
    (hread : variableOf t.tokens = .ok v) (htype : v.type = t) : ¬t.EndsInLooseWord := by
  intro hloose
  cases (h.withArray false).ending rfl with
  | whole _ _ _ _ _ htight => exact htight hloose
  | parted last before htokens hbracket hnamed hother _ =>
    have hstrip := stripBounds_tokens htokens hbracket
    rw [variableOf_eq (by rw [h.breakTop_tokens]; exact hstrip)] at hread
    split at hread
    · cases hread
    · obtain rfl := Except.ok.inj hread
      have hname := congrArg TypeRef.name htype
      simp only [declared, hnamed, if_true] at hname
      exact hother hname

end TypeRef

/-! ## Unnamed parameters -/

namespace Parameter

/-- The variable that a parameter at a place is recorded as. -/
def recorded (q : Parameter) (place : Nat) : Variable :=
  ⟨q.type, q.name.getD ("arg" ++ toString place)⟩

/-- Only a parameter without a name can end in a loose word. -/
def Tight (q : Parameter) : Prop :=
  q.name = none → ¬q.type.EndsInLooseWord

/-- The parameter that stands for none. -/
def void : Parameter :=
  { type := .named "void" }

variable {q : Parameter}

theorem Canonical.eq_void_iff (h : q.Canonical) : q.tokens = ["void"] ↔ q = void := by
  have hvoid : (TypeRef.named "void").tokens = ["void"] := TypeRef.tokens_named (by decide)
  constructor
  · intro htokens
    obtain ⟨type, name, value⟩ := q
    have htype := List.length_pos_iff.2 h.type.tokens_ne_nil
    have hlength := congrArg List.length htokens
    simp only [tokens, bareTokens, List.length_append, List.length_singleton] at hlength htype
    cases name with
    | some n =>
      simp only [Option.toList_some, List.length_singleton] at hlength
      omega
    | none =>
      cases value with
      | some ws =>
        simp only [Option.elim_some, List.length_cons] at hlength
        omega
      | none =>
        have hread := h.type.ofTokens_tokens
        have hnamed : (TypeRef.named "void").Canonical [] false :=
          TypeRef.canonical_named (by decide)
        simp only [tokens, bareTokens, Option.toList_none, List.append_nil, Option.elim_none]
          at htokens
        rw [htokens, ← hvoid, hnamed.ofTokens_tokens] at hread
        rw [void, hread]
  · rintro rfl
    simp [tokens, bareTokens, void, hvoid]

/-- A parameter is recorded with its whole type just if it does not end in a loose word. -/
theorem Canonical.parameterOf_eq_ok_iff (h : q.Canonical) (hname : ∀ n ∈ q.name, IsPlainWord [] n)
    (function : String) (place : Nat) :
    parameterOf function place q.tokens = .ok (q.recorded place) ↔ q.Tight := by
  constructor
  · intro hread hnone
    have hbare : q.bareTokens = q.type.tokens := by
      simp [bareTokens, hnone]
    cases hv : variableOf q.tokens with
    | error cause =>
      rw [parameterOf, hv] at hread
      cases hread
    | ok v =>
      rw [parameterOf_of_variableOf hv] at hread
      have htype : v.type = q.type := congrArg Variable.type (Except.ok.inj hread)
      rw [h.variableOf_eq_ok_iff, hbare] at hv
      exact h.type.tight_of_variableOf hv htype
  · intro htight
    have hread : variableOf q.tokens = .ok ⟨q.type, q.name.getD ""⟩ := by
      rw [h.variableOf_eq_ok_iff]
      cases hq : q.name with
      | none =>
        have htype := h.type.variableOf_tokens (htight hq)
        simpa [bareTokens, hq] using htype
      | some n =>
        have hv : Variable.Canonical ⟨q.type, n⟩ := ⟨h.type, hname n hq⟩
        simpa [bareTokens, hq, Variable.tokens] using hv.variableOf_tokens
    rw [parameterOf_of_variableOf hread]
    unfold Variable.placed recorded
    cases hq : q.name with
    | none => rfl
    | some n => simp [ne_empty_of_isIdentifier (h.name n hq)]

end Parameter

theorem parametersOf_cons_eq_ok_iff {function : String} {place : Nat} {part : List String}
    {parts : List (List String)} {v : Variable} {vs : List Variable} :
    parametersOf function place (part :: parts) = .ok (v :: vs) ↔
      parameterOf function place part = .ok v ∧
        parametersOf function (place + 1) parts = .ok vs := by
  rw [parametersOf, bind_eq_ok_iff]
  simp only [bind_eq_ok_iff, Except.ok.injEq, List.cons.injEq]
  constructor
  · rintro ⟨p, hp, ps, hps, rfl, rfl⟩
    exact ⟨hp, hps⟩
  · rintro ⟨hp, hps⟩
    exact ⟨v, hp, vs, hps, rfl, rfl⟩

theorem parametersOf_eq_ok_iff {qs : List Parameter}
    (h : ∀ q ∈ qs, q.Canonical ∧ ∀ n ∈ q.name, IsPlainWord [] n) (function : String) (place : Nat) :
    parametersOf function place (qs.map Parameter.tokens) =
        .ok ((qs.zipIdx place).map fun (q, i) => q.recorded i) ↔
      ∀ q ∈ qs, q.Tight := by
  induction qs generalizing place with
  | nil => simp [parametersOf]
  | cons q qs ih =>
    obtain ⟨hq, hname⟩ := h q List.mem_cons_self
    rw [List.map_cons, List.zipIdx_cons, List.map_cons, parametersOf_cons_eq_ok_iff,
      hq.parameterOf_eq_ok_iff hname, ih fun r hr => h r (List.mem_cons_of_mem _ hr),
      List.forall_mem_cons]

namespace Prototype

/-- The signature that a function is recorded as. -/
def signature (p : Prototype) : Signature :=
  { p.frame with parameters := p.parameters.zipIdx.map fun (q, place) => q.recorded place }

variable {p : Prototype}

/-- A function is recorded with all of its parameters just if none of them ends in a loose word, and
`void` is not the only one. -/
theorem Canonical.parse_eq_signature_iff (h : p.Canonical) (hclosed : p.ValuesClosed)
    (hnames : ∀ q ∈ p.parameters, ∀ n ∈ q.name, IsPlainWord [] n) :
    Signature.parse p.text = .ok p.signature ↔
      p.parameters ≠ [.void] ∧ ∀ q ∈ p.parameters, q.Tight := by
  rw [h.parse_text]
  by_cases hvoid : p.parameters = [.void]
  · -- No parameter is read, where one is recorded.
    have htokens : p.parameters.map Parameter.tokens = [["void"]] := by
      have hq := h.parameters .void (by simp [hvoid])
      rw [hvoid, List.map_singleton, hq.eq_void_iff.2 rfl]
    have hleads : Leads bracketDepth (fun _ => False) 0 ["void"] 0 :=
      .plain (Int.le_refl 0) (by decide)
    have hread := Signature.signatureOf_parameters (s := p.frame) h.returnType h.name hleads
    have hall : signatureOf p.tokens = .ok { p.frame with parameters := [] } := by
      rw [tokens, htokens, List.intercalate_singleton]
      exact hread
    rw [hall]
    refine iff_of_false (fun hsame => ?_) (fun hboth => hboth.1 hvoid)
    have hparameters := congrArg Signature.parameters (Except.ok.inj hsame)
    simp [signature, hvoid] at hparameters
  · have hparts : p.parameters.map Parameter.tokens ≠ [["void"]] := by
      intro hparts
      obtain ⟨q, hq, htokens⟩ := List.map_eq_singleton_iff.1 hparts
      rw [(h.parameters q (by simp [hq])).eq_void_iff] at htokens
      exact hvoid (hq.trans (by rw [htokens]))
    rw [h.signatureOf_of_closed hclosed hparts, map_eq_ok_iff]
    have hread := parametersOf_eq_ok_iff
      (fun q hq => ⟨h.parameters q hq, hnames q hq⟩) p.name 0
    rw [← hread]
    constructor
    · rintro ⟨ps, hps, hsame⟩
      refine ⟨hvoid, ?_⟩
      rw [hps]
      exact congrArg _ (congrArg Signature.parameters hsame)
    · rintro ⟨-, hps⟩
      exact ⟨_, hps, rfl⟩

end Prototype

/-! ## Both ways -/

/-- A type is read as a type without a name just if it does not end in a loose word. Parameters are
recorded with all of their types, and the unnamed ones with names by their places, just if none of
the unnamed ones ends in a loose word. -/
theorem TypeRef.parse_unnamed_iff {t : TypeRef} (ht : t.Canonical [] false) {p : Prototype}
    (hp : p.Canonical) (hclosed : p.ValuesClosed)
    (hnames : ∀ q ∈ p.parameters, ∀ n ∈ q.name, IsPlainWord [] n) :
    (Variable.parse t.render = .ok ⟨t, ""⟩ ↔ ¬t.EndsInLooseWord) ∧
      (Signature.parse p.text = .ok p.signature ↔
        p.parameters ≠ [.void] ∧
          ∀ q ∈ p.parameters, q.name = none → ¬q.type.EndsInLooseWord) := by
  refine ⟨?_, hp.parse_eq_signature_iff hclosed hnames⟩
  rw [Variable.parse, tokens_of_spells ht.spells_render.1]
  exact ⟨fun hread => ht.tight_of_variableOf hread rfl, ht.variableOf_tokens⟩

/-- A function with unnamed parameters among others. -/
def visitPrototype : Prototype :=
  { returnType := .named "void", name := "Visit"
    parameters :=
      [⟨.named "int", none, some ["1"]⟩,
        ⟨{ name := "unsigned long", isConst := true, isReference := true }, none, none⟩,
        ⟨.named "int", some "depth", none⟩,
        ⟨{ name := "ns::Node", isConst := true, isArray := true }, none, none⟩] }

theorem canonical_visitPrototype : visitPrototype.Canonical := by
  have hlong : IsTypeName [] false "unsigned long" := by
    simpa using IsTypeName.of_words [["unsigned"], ["long"]] (by simp) (by decide)
  have hnode : IsTypeName [] false "ns::Node" := by
    simpa using IsTypeName.of_words [["ns", "Node"]] (by simp) (by decide)
  refine ⟨TypeRef.canonical_named (by decide), show IsIdentifier "Visit" by decide, ?_⟩
  refine List.forall_mem_cons.2 ⟨⟨TypeRef.canonical_named (by decide), by simp, ?_⟩,
    List.forall_mem_cons.2 ⟨⟨.intro hlong (by simp), by simp, by simp⟩,
      List.forall_mem_cons.2 ⟨⟨TypeRef.canonical_named (by decide), ?_, by simp⟩,
        List.forall_mem_cons.2 ⟨⟨.intro hnode (by simp), by simp, by simp⟩, by simp⟩⟩⟩⟩
  all_goals
    simp only [Option.mem_some_iff, forall_eq']
    decide

theorem parse_visitPrototype :
    visitPrototype.Canonical ∧ visitPrototype.ValuesClosed ∧
      visitPrototype.text =
        "void Visit(int = 1, const unsigned long&, int depth, const ns::Node[])" ∧
      Signature.parse visitPrototype.text = .ok visitPrototype.signature ∧
      visitPrototype.signature.parameters.map Variable.name = ["arg0", "arg1", "depth", "arg3"] ∧
      Variable.parse "const ns::Node[]" =
        .ok ⟨{ name := "ns::Node", isConst := true, isArray := true }, ""⟩ := by
  have hclosed : visitPrototype.ValuesClosed := by
    simp only [Prototype.ValuesClosed, visitPrototype, List.forall_mem_cons]
    decide
  have hnames : ∀ q ∈ visitPrototype.parameters, ∀ n ∈ q.name, IsPlainWord [] n := by
    simp only [visitPrototype, List.forall_mem_cons]
    decide
  have htight : ∀ q ∈ visitPrototype.parameters, q.name = none → ¬q.type.EndsInLooseWord := by
    simp only [visitPrototype, List.forall_mem_cons]
    decide
  have hnode := (canonical_visitPrototype.parameters
    ⟨{ name := "ns::Node", isConst := true, isArray := true }, none, none⟩
    (by simp [visitPrototype])).type
  obtain ⟨htype, hprototype⟩ :=
    TypeRef.parse_unnamed_iff hnode canonical_visitPrototype hclosed hnames
  exact ⟨canonical_visitPrototype, hclosed, by decide +kernel,
    hprototype.2 ⟨by simp [visitPrototype], htight⟩, by decide, htype.2 (by decide)⟩

/-- A constant type of one word has no type left when its word is taken for its name, and the last
word of a type of two words is its name. -/
theorem unnamed_types_parted :
    (TypeRef.Canonical [] false { name := "int", isConst := true } ∧
        (Variable.parse "const int").toOption.isSome = false) ∧
      TypeRef.Canonical [] false { name := "unsigned int" } ∧
        (Variable.parse "unsigned int").toOption.map Variable.name = some "int" := by
  have hint : IsTypeName [] false "int" := by
    simpa using IsTypeName.of_words [["int"]] (by simp) (by decide)
  have hunsigned : IsTypeName [] false "unsigned int" := by
    simpa using IsTypeName.of_words [["unsigned"], ["int"]] (by simp) (by decide)
  exact ⟨⟨.intro hint (by simp), by decide +kernel⟩, .intro hunsigned (by simp), by decide +kernel⟩

end HeaderReflection
