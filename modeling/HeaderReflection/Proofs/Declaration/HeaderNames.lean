import HeaderReflection.Declaration.Header
import HeaderReflection.Proofs.Declaration.TypeNames

/-!
# Names that headers declare

A container's name is a token of its header that starts like an identifier. The lexer takes the
strings with an encoding or raw mark for such tokens too, so a name need not be an identifier; it is
one unless there is a quote in it.

* `Token.isWord_or_quoted`: a lexeme that starts like a word is one, or a marked string.
* `isIdentifier_iff_of_parse`: a name that a header declares is an identifier if it has no quote.
-/

namespace HeaderReflection

open Declaration

/-! ## Tokens that start like words -/

namespace Token

open Text (isWordStart isWordChar)

/-- A lexeme that starts like a word is one, or a marked string. -/
theorem isWord_or_quoted {c : Char} (hc : isWordStart c = true) (rest : List Char) :
    IsWord (splitLexeme c rest).2.1 ∨ doubleQuote ∈ (splitLexeme c rest).2.1 := by
  have hword : IsWord (c :: rest.takeWhile isWordChar) :=
    ⟨hc, fun d hd => List.mem_takeWhile_imp hd⟩
  unfold splitLexeme
  rw [if_pos hc]
  unfold splitWord
  split
  · exact .inl hword
  · rename_i d after _
    split
    · rename_i hd
      rw [of_decide_eq_true (Bool.and_eq_true_iff.1 hd).1]
      exact .inr (by simp)
    · split
      · rename_i hd
        rw [of_decide_eq_true (Bool.and_eq_true_iff.1 hd).1]
        exact .inr (by simp)
      · exact .inl hword

/-- The text of a token is a lexeme. -/
theorem exists_lexeme {k : Cursor} {cs : List Char} {t : Token} (h : t ∈ lexFrom k cs) :
    ∃ c rest, t.text = String.ofList (splitLexeme c rest).2.1 := by
  induction hn : cs.length using Nat.strong_induction_on generalizing k cs with
  | _ n ih =>
    rcases hg : splitGap k.lineStart cs with ⟨gap, _ | ⟨c, rest⟩⟩
    · rw [lexFrom_eq_nil (by rw [hg])] at h
      cases h
    · rw [lexFrom_eq_cons hg] at h
      rcases List.mem_cons.1 h with rfl | h
      · exact ⟨c, rest, rfl⟩
      · refine ih _ ?_ h rfl
        have hlen := congrArg List.length (append_splitGap k.lineStart cs)
        rw [hg, List.length_append, List.length_cons] at hlen
        have := length_splitLexeme_le c rest
        omega

end Token

theorem isIdentifier_iff_of_mem_tokens {text t : String} (ht : t ∈ tokens text)
    (hw : isWord t = true) : IsIdentifier t ↔ Token.doubleQuote ∉ t.toList := by
  constructor
  · intro hid hquote
    exact absurd (Token.isWordChar_of_mem hid hquote) (by decide)
  · intro hquote
    obtain ⟨token, htoken, rfl⟩ := List.mem_map.1 ht
    obtain ⟨c, rest, htext⟩ := Token.exists_lexeme htoken
    have hlist : token.text.toList = (Token.splitLexeme c rest).2.1 := by
      rw [htext, String.toList_ofList]
    -- The first character of a lexeme is the one that it is read from.
    have hstart : Text.isWordStart c = true := by
      have happ := Token.append_splitLexeme c rest
      have hne := Token.splitLexeme_ne_nil c rest
      unfold isWord at hw
      rw [hlist] at hw
      cases hl : (Token.splitLexeme c rest).2.1 with
      | nil => exact absurd hl hne
      | cons d ds =>
        rw [hl] at happ hw
        rw [← (List.cons.inj happ).1]
        exact hw
    rw [hlist] at hquote
    unfold IsIdentifier
    rw [hlist]
    exact (Token.isWord_or_quoted hstart rest).resolve_right hquote

/-! ## The name of a header -/

/-- The name that is found is the given one, or a word among the tokens. -/
theorem mem_of_headerName {name : Option String} {ts : List String} {n : String}
    (h : headerName name ts = .ok (some n)) : name = some n ∨ n ∈ ts ∧ isWord n = true := by
  fun_induction headerName name ts with
  | case1 name =>
    obtain rfl := Except.ok.inj h
    exact .inl rfl
  | case2 => cases h
  | case3 name t rest _ group after hclose ih =>
    refine (ih h).imp_right fun hn => ⟨List.mem_cons_of_mem _ ?_, hn.2⟩
    rw [← append_closeGroup hclose]
    exact List.mem_append_right _ hn.1
  | case4 name t rest _ hword ih =>
    refine .inr ?_
    rcases ih h with hn | hn
    · obtain rfl := Option.some.inj hn
      exact ⟨List.mem_cons_self, (Bool.and_eq_true_iff.1 hword).2⟩
    · exact ⟨List.mem_cons_of_mem _ hn.1, hn.2⟩
  | case5 name t rest _ _ ih => exact (ih h).imp_right fun hn => ⟨List.mem_cons_of_mem _ hn.1, hn.2⟩

theorem mem_of_headerOf {text : String} {kind : ContainerKind} {ts : List String} {header : Header}
    (h : headerOf text kind ts = .ok header) : header.name ∈ ts ∧ isWord header.name = true := by
  have hfound : ∀ {name : String}, headerName none (breakTop [":"] 0 ts).1 = .ok (some name) →
      name ∈ ts ∧ isWord name = true := by
    intro name hname
    obtain ⟨hmem, hword⟩ := (mem_of_headerName hname).resolve_left (by simp)
    refine ⟨?_, hword⟩
    rw [← append_breakTop [":"] 0 ts]
    exact List.mem_append_left _ hmem
  unfold headerOf at h
  dsimp only at h
  split at h
  · cases h
  · cases h
  · rename_i name hname
    have hmem := hfound hname
    split at h
    · obtain rfl := Except.ok.inj h
      exact hmem
    · split at h
      · obtain rfl := Except.ok.inj h
        exact hmem
      · rename_i tail _ _
        cases hb : basesOf text (splitTop "," 0 tail) with
        | error cause => simp [hb, Except.map] at h
        | ok bases =>
          simp only [hb, Except.map, Except.ok.injEq] at h
          rwa [← h]

theorem mem_of_skipTemplate {ts us : List String} (h : skipTemplate ts = .ok us) :
    ∀ t ∈ us, t ∈ ts := by
  unfold skipTemplate at h
  split at h
  · obtain rfl := Except.ok.inj h
    exact fun _ => id
  · split at h
    · split at h
      · cases h
      · rename_i group after hclose
        obtain rfl := Except.ok.inj h
        intro t ht
        rw [← append_closeGroup hclose]
        exact List.mem_cons_of_mem _ (List.mem_append_right _ ht)
    · obtain rfl := Except.ok.inj h
      exact fun _ => id

theorem mem_of_skipScopedWord (ts : List String) : ∀ t ∈ skipScopedWord ts, t ∈ ts := by
  unfold skipScopedWord
  split
  · exact fun _ => id
  · split
    · exact fun _ => List.mem_cons_of_mem _
    · exact fun _ => id

/-- The name of a header is one of its tokens, and starts like an identifier. -/
theorem mem_of_parse {text : String} {header : Header} (h : Header.parse text = .ok header) :
    header.name ∈ tokens text ∧ isWord header.name = true := by
  unfold Header.parse at h
  split at h
  · cases h
  · cases h
  · rename_i word rest hskip
    have hrest : ∀ t ∈ rest, t ∈ tokens text := fun t ht =>
      mem_of_skipTemplate hskip t (List.mem_cons_of_mem _ ht)
    split at h
    · cases h
    · obtain ⟨hmem, hword⟩ := mem_of_headerOf h
      exact ⟨hrest _ (mem_of_skipScopedWord rest _ hmem), hword⟩
    · obtain ⟨hmem, hword⟩ := mem_of_headerOf h
      exact ⟨hrest _ hmem, hword⟩

/-- A name that a header declares is an identifier if it has no quote. -/
theorem isIdentifier_iff_of_parse {text : String} {header : Header}
    (h : Header.parse text = .ok header) :
    IsIdentifier header.name ↔ Token.doubleQuote ∉ header.name.toList :=
  isIdentifier_iff_of_mem_tokens (mem_of_parse h).1 (mem_of_parse h).2

end HeaderReflection
