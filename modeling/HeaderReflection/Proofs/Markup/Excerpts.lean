import HeaderReflection.Container.Build
import HeaderReflection.Proofs.Token.Stretch

/-!
# Excerpts

* `head?_tokens_excerptOf`: a declaration that starts with a word in the file starts with the same
  word on its own.
-/

namespace HeaderReflection

namespace Markup

open Token (lexFrom IsWord EndsWord)

theorem getLast?_isWordChar {word : List Char} (hword : IsWord word) {c : Char}
    (hc : c ∈ word.getLast?) : Text.isBlank c = false :=
  Text.isBlank_eq_false_of_isWordChar
    (Token.isWordChar_of_mem hword (List.mem_of_getLast? hc))

/-- A declaration that starts with a word in the file starts with the same word on its own. -/
theorem head?_tokens_excerptOf {k : Token.Cursor} {cs : List Char} {before more post : List Token}
    {first stop : Token} (h : lexFrom k cs = before ++ (first :: more ++ stop :: post))
    (hword : IsWord first.text.toList)
    (hmark : first.text.toList ∉ Token.rawStringMarks ∧ first.text.toList ∉ Token.encodingMarks) :
    (Declaration.tokens (excerptOf first more stop).text).head? = some first.text := by
  obtain ⟨k', rest, hfirst, -⟩ := Token.exists_lexFrom_of_append h
  obtain ⟨gap, c, tail, -, -, -, htext, hmore⟩ := Token.lexFrom_eq_cons_iff hfirst.symm
  obtain ⟨k'', behind, hstop, hspell⟩ := Token.exists_lexFrom_of_append hmore.symm
  obtain ⟨gap', d, tail', hgap', hgap'', -, -, -⟩ := Token.lexFrom_eq_cons_iff hstop.symm
  -- What follows the word in the declaration is what follows it in the file.
  have hfollows : (Token.spell more ++ stop.gap).toList <+:
      (Token.splitLexeme c tail).2.2 := by
    have hbehind := Token.append_splitGap k''.lineStart behind
    rw [hgap'] at hbehind
    rw [hspell, ← hbehind, hgap'', String.toList_append, String.toList_ofList]
    exact ⟨d :: tail', by simp⟩
  have htext' : (Token.splitLexeme c tail).2.1 = first.text.toList := by
    rw [htext, String.toList_ofList]
  have hlexeme : Token.splitLexeme c tail =
      ((Token.splitLexeme c tail).1, first.text.toList, (Token.splitLexeme c tail).2.2) := by
    rw [← htext']
  have hend := Token.head_behind_word hword hlexeme
  have hchars : (excerptOf first more stop).text.toList =
      first.text.toList ++ Text.trimEnd (Token.spell more ++ stop.gap).toList := by
    have hne : first.text.toList ≠ [] := fun h0 => by rw [h0] at hword; exact hword
    have hhead : ∀ c ∈ first.text.toList.head?, Text.isBlank c = false := fun c hc =>
      Text.isBlank_eq_false_of_isWordChar (Token.isWordChar_of_mem hword (List.mem_of_head? hc))
    unfold excerptOf Text.trim textBefore
    rw [String.toList_ofList, String.toList_append]
    exact Text.trimBlanks_append hne hhead (fun c hc => getLast?_isWordChar hword hc) _
  have hends : EndsWord first.text.toList
      (Text.trimEnd (Token.spell more ++ stop.gap).toList) := by
    intro e he
    have hprefix := (Text.trimEnd_prefix _).trans hfollows
    refine ⟨hend e ?_, fun _ => hmark⟩
    obtain ⟨us, hus⟩ := hprefix
    rw [← hus]
    cases htrim : Text.trimEnd (Token.spell more ++ stop.gap).toList with
    | nil => rw [htrim] at he; cases he
    | cons f fs => rw [htrim] at he; exact he
  unfold Declaration.tokens Token.lex
  rw [hchars, Token.lexFrom_word hword hends]
  simp

/-- A declaration that starts with the word `enum` in the file is that of an enum. -/
theorem isEnumDeclaration_excerptOf {k : Token.Cursor} {cs : List Char}
    {before more post : List Token} {first stop : Token}
    (h : lexFrom k cs = before ++ (first :: more ++ stop :: post)) (henum : first.text = "enum") :
    isEnumDeclaration (excerptOf first more stop).text = true := by
  have hchars : first.text.toList = ['e', 'n', 'u', 'm'] := by rw [henum]; rfl
  have hhead := head?_tokens_excerptOf h (by rw [hchars]; exact ⟨by decide, by decide⟩)
    (by rw [hchars]; decide)
  unfold isEnumDeclaration
  rw [hhead, henum]
  rfl

end Markup

end HeaderReflection
