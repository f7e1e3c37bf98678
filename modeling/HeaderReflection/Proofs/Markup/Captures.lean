import HeaderReflection.Proofs.Markup.Heeded
import HeaderReflection.Proofs.Markup.Places

/-!
# Captured texts

The scanner hands declarations and bodies of enums on as texts, which are cut into tokens again. The
texts are slices of the file, and their tokens are those that the scanner saw.

* `exists_captures`: where the declaration of an event stands in the file, and its body.
* `slices_reread`: the tokens of slices, of declarations and of bodies.
-/

namespace HeaderReflection

open Text (Position isBlank)

/-- The declaration that an event carries. -/
def Event.declaration? : Event → Option Excerpt
  | .container _ _ declaration _ | .property _ _ declaration | .function _ _ declaration =>
    some declaration
  | _ => none

/-- The body of an enum that an event carries. -/
def Event.body? : Event → Option String
  | .container _ _ _ body => body
  | _ => none

namespace Markup

variable {v : Vocabulary} {e : Event} {declaration : Excerpt} {source : String}

/-- The declaration of an event is cut out of these tokens from the first one up to a terminator,
and its body out of those behind that up to a closing brace. -/
def Captures (e : Event) (declaration : Excerpt) (ts : List Token) : Prop :=
  ∃ first more stop after, ts = first :: more ++ stop :: after ∧
    declaration = excerptOf first more stop ∧
    ∀ body, e.body? = some body → ∃ inside close rest, after = inside ++ close :: rest ∧
      body = textBefore inside close

/-- What a marker announces is captured from the tokens behind its argument list. -/
theorem captures_of_announced {kind : MarkerKind} {position : Position} {attributes : Excerpt}
    {ts : List Token} (h : (announced kind position attributes ts).event = some (.ok e))
    (hdeclaration : e.declaration? = some declaration) : Captures e declaration ts := by
  cases kind with
  | generatedBody =>
    cases h
    cases hdeclaration
  | property =>
    simp only [announced, propertyStep] at h
    split at h
    · rename_i first more stop rest hcut
      cases h
      cases hdeclaration
      exact ⟨first, more, stop, rest, (append_splitUntil hcut).1, rfl, by rintro body ⟨⟩⟩
    · cases h
  | function =>
    simp only [announced, functionStep] at h
    split at h
    · rename_i first more stop rest hcut
      obtain rfl : .function position attributes (excerptOf first more stop) = e := by
        split at h
        · split at h
          · exact Except.ok.inj (Option.some.inj h)
          · cases h
        · exact Except.ok.inj (Option.some.inj h)
      cases hdeclaration
      exact ⟨first, more, stop, rest, (append_splitUntil hcut).1, rfl, by rintro body ⟨⟩⟩
    · cases h
  | container =>
    simp only [announced, containerStep] at h
    split at h
    · rename_i first more stop rest hcut
      obtain ⟨body, rfl, hbody⟩ : ∃ body,
          e = .container position attributes (excerptOf first more stop) body ∧
            ∀ text, body = some text → ∃ inside close tail, rest = inside ++ close :: tail ∧
              text = textBefore inside close := by
        split at h
        · cases h
        · split at h
          · split at h
            · rename_i inside close tail hbraces
              cases h
              exact ⟨_, rfl, by
                rintro text ⟨⟩
                exact ⟨inside, close, tail, append_splitBraces hbraces, rfl⟩⟩
            · cases h
              exact ⟨none, rfl, by rintro text ⟨⟩⟩
          · cases h
            exact ⟨none, rfl, by rintro text ⟨⟩⟩
      cases hdeclaration
      exact ⟨first, more, stop, rest, (append_splitUntil hcut).1, rfl, hbody⟩
    · cases h

/-- Where the declaration of an event stands in the file, and its body. -/
theorem exists_captures (hmem : .ok e ∈ scan v source)
    (hdeclaration : e.declaration? = some declaration) :
    ∃ before ts, Token.lex source = before ++ ts ∧ Captures e declaration ts := by
  obtain ⟨attributes, hattributes⟩ : ∃ attributes, e.attributes? = some attributes := by
    cases e <;> first | exact ⟨_, rfl⟩ | cases hdeclaration
  obtain ⟨earlier, marker, opening, inside, close, tail, after, hreach, -, -, htakes⟩ :=
    exists_takes_of_event hmem hattributes
  obtain ⟨kind, -, hannounced⟩ := htakes.announces
  obtain ⟨read, hread⟩ := hreach.suffix
  refine ⟨read ++ marker :: opening :: (inside ++ [close]), tail, ?_,
    captures_of_announced (congrArg Step.event hannounced) hdeclaration⟩
  rw [← hread]
  simp

/-! ## Reading them again -/

variable {before after more inside rest : List Token} {first stop opening close : Token}

/-- The declaration is a slice of the file without the blanks at its ends. -/
theorem excerptOf_eq (first stop : Token) (more : List Token) : excerptOf first more stop =
    ⟨Text.trim (Token.spellTight (first :: more) ++ stop.gap), first.position⟩ := by
  rw [excerptOf, textBefore, Token.spellTight, String.append_assoc]

/-- A declaration falls into the tokens that the scanner saw, but for the white space at its end. -/
theorem declaration_reread (h : Token.lex source = before ++ first :: more ++ stop :: after)
    (hplain : first.isPlain = true) :
    Declaration.tokens (excerptOf first more stop).text =
        Token.trimmedTexts stop.gap (first :: more) ∧
      ((∀ last ∈ (first :: more).getLast?, ∀ c ∈ last.text.toList.getLast?, isBlank c = false) →
        Declaration.tokens (excerptOf first more stop).text = (first :: more).map Token.text) := by
  have hfirst : Token.lex source = before ++ first :: (more ++ stop :: after) := by
    rw [h, List.append_assoc, List.cons_append]
  obtain ⟨chars, -, hbehind⟩ := Token.exists_lexFrom_behind hfirst
  have htokens := tokens_excerptOf_trimmed hbehind.symm hplain
  refine ⟨htokens, fun hlast => ?_⟩
  rw [htokens]
  refine Token.trimmedTexts_eq (fun t ht => Token.text_ne_empty hbehind.symm ?_) hlast _
  rw [← List.cons_append]
  exact List.mem_append_left _ ht

theorem sharpFirst_inside (h : Token.lex source = before ++ inside ++ close :: after)
    (hplain : ∀ t ∈ inside.head?, t.isPlain = true) :
    Token.sharpFirst (inside.map Token.text) = false := by
  cases inside with
  | nil => rfl
  | cons t inside =>
    rw [List.append_assoc] at h
    obtain ⟨chars, -, hbehind⟩ := Token.exists_lexFrom_behind h
    exact Token.sharpFirst_of_isPlain hbehind.symm (hplain t rfl) _

/-- A body falls into the tokens that the scanner saw, and its enumerators are theirs. -/
theorem body_reread (h : Token.lex source = before ++ opening :: inside ++ close :: after)
    (hplain : ∀ t ∈ inside.head?, t.isPlain = true) :
    List.Forall₂ (Token.Shifted opening.stop) inside (Token.lex (textBefore inside close)) ∧
      Enumerator.parseAll (textBefore inside close) =
        (Declaration.splitEntries 0 inside).filterMap Declaration.enumeratorOf? := by
  have hinside : Token.lex source = (before ++ [opening]) ++ inside ++ close :: after := by
    rw [h, List.append_cons before]
  have hsharp := sharpFirst_inside hinside hplain
  rw [List.append_assoc] at hinside
  obtain ⟨chars, -, hbehind⟩ := Token.exists_lexFrom_behind hinside
  exact ⟨Token.shifted_between h hsharp, Enumerator.parseAll_textBefore hbehind.symm hsharp⟩

/-- **A slice that is read again has the same tokens.** Consecutive tokens of a file, the first of
which is neither a number sign nor a white space character, are the tokens of the slice that they
take up, at the same distance from its start. So are those of the slices that the scanner hands on:
a declaration, whose slice goes up to the terminator and is trimmed then, which loses white space at
its end only, and the body of an enum between its braces. -/
theorem slices_reread (v : Vocabulary) (source : String) :
    (∀ before run after first last, Token.lex source = before ++ run ++ after →
      first ∈ run.head? → last ∈ run.getLast? → first.isPlain = true →
      (∃ slice, IsSlice source first.offset last.stop slice) ∧
        ∀ slice, IsSlice source first.offset last.stop slice →
          List.Forall₂ (Token.Shifted first.offset) run (Token.lex slice)) ∧
    ∀ e declaration, .ok e ∈ scan v source → e.declaration? = some declaration →
      ∃ before first more stop after text,
        Token.lex source = before ++ first :: more ++ stop :: after ∧
        IsSlice source first.offset stop.offset text ∧
        declaration = ⟨Text.trim text, first.position⟩ ∧
        (first.isPlain = true →
          List.Forall₂ (Token.Shifted first.offset) (first :: more) (Token.lex text) ∧
          Declaration.tokens declaration.text = Token.trimmedTexts stop.gap (first :: more) ∧
          ((∀ last ∈ (first :: more).getLast?, ∀ c ∈ last.text.toList.getLast?, isBlank c = false) →
            Declaration.tokens declaration.text = (first :: more).map Token.text)) ∧
        ∀ body, e.body? = some body → ∃ inside close rest, after = inside ++ close :: rest ∧
          IsSlice source stop.stop close.offset body ∧
          ((∀ t ∈ inside.head?, t.isPlain = true) →
            List.Forall₂ (Token.Shifted stop.stop) inside (Token.lex body) ∧
            Enumerator.parseAll body =
              (Declaration.splitEntries 0 inside).filterMap Declaration.enumeratorOf?) := by
  refine ⟨fun before run after first last hlex hfirst hlast hplain => ?_,
    fun e declaration hmem hdeclaration => ?_⟩
  · obtain ⟨more, rfl⟩ := List.head?_eq_some_iff.1 hfirst
    have hslice := Token.isSlice_tokens hlex hlast
    refine ⟨⟨_, hslice⟩, fun slice hsame => ?_⟩
    have hshifted := Token.shifted_slice hlex hplain (.inl rfl)
    rwa [String.append_empty, hslice.unique hsame] at hshifted
  · obtain ⟨read, ts, hlex, first, more, stop, after, rfl, rfl, hbody⟩ :=
      exists_captures hmem hdeclaration
    rw [← List.append_assoc] at hlex
    refine ⟨read, first, more, stop, after, _, hlex, Token.isSlice_before hlex,
      excerptOf_eq first stop more, fun hplain => ⟨?_, declaration_reread hlex hplain⟩,
      fun body hsome => ?_⟩
    · exact Token.shifted_slice hlex hplain (.inr ⟨stop, rfl, rfl⟩)
    · obtain ⟨inside, close, rest, rfl, rfl⟩ := hbody body hsome
      have hinside : Token.lex source =
          (read ++ first :: more) ++ stop :: inside ++ close :: rest := by
        rw [hlex, List.append_assoc (read ++ first :: more), List.cons_append]
      exact ⟨inside, close, rest, rfl, Token.isSlice_between hinside, body_reread hinside⟩

/-- The slice stands behind a directive and ends between the colons of a longer row. -/
theorem slices_reread_scopeMark :
    (Token.lex "#a\nx:::y" =
        [] ++ [⟨.identifier, "x", "#a\n", 3, ⟨2, 1⟩⟩, ⟨.punctuation, "::", "", 4, ⟨2, 2⟩⟩] ++
          [⟨.punctuation, ":", "", 6, ⟨2, 4⟩⟩, ⟨.identifier, "y", "", 7, ⟨2, 5⟩⟩] ∧
      Token.isPlain ⟨.identifier, "x", "#a\n", 3, ⟨2, 1⟩⟩ = true ∧
      IsSlice "#a\nx:::y" 3 6 "x::") ∧
    List.Forall₂ (Token.Shifted 3)
      [⟨.identifier, "x", "#a\n", 3, ⟨2, 1⟩⟩, ⟨.punctuation, "::", "", 4, ⟨2, 2⟩⟩]
      (Token.lex "x::") := by
  have hlex : Token.lex "#a\nx:::y" =
      [] ++ [⟨.identifier, "x", "#a\n", 3, ⟨2, 1⟩⟩, ⟨.punctuation, "::", "", 4, ⟨2, 2⟩⟩] ++
        [⟨.punctuation, ":", "", 6, ⟨2, 4⟩⟩, ⟨.identifier, "y", "", 7, ⟨2, 5⟩⟩] := by
    decide +kernel
  have hplain : Token.isPlain ⟨.identifier, "x", "#a\n", 3, ⟨2, 1⟩⟩ = true := by decide
  have hslice : IsSlice "#a\nx:::y" 3 6 "x::" := ⟨"#a\n", ":y", by decide, by decide, by decide⟩
  exact ⟨⟨hlex, hplain, hslice⟩,
    ((slices_reread {} _).1 [] _ _ _ _ hlex rfl rfl hplain).2 _ hslice⟩

end Markup

end HeaderReflection
