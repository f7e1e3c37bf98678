import HeaderReflection.Declaration.Type
import HeaderReflection.Markup.Scan
import HeaderReflection.Proofs.Token.Slices

/-!
# Declarations and bodies on their own

* `tokens_excerptOf_trimmed`: a declaration falls into the tokens that it has in the file, but for
  the white space at its end.
* `tokens_excerptOf`: it falls into all of them, if they neither start nor end with white space.
-/

namespace HeaderReflection

open Text (isBlank)

namespace Markup

open Token (Cursor lexFrom)

/-- The tokens with these texts are the same when they are cut out: no number sign stands at the
start, and no blank at either end that would be trimmed. -/
def isSteady (texts : List String) : Bool :=
  texts.head?.all (fun s => s.toList.head?.all fun c => c != '#' && !isBlank c) &&
    texts.getLast?.all fun s => s.toList.getLast?.all fun c => !isBlank c

/-- The first character of a text is neither a number sign nor a blank, and the last is no blank. -/
theorem isSteady_cons {s : String} {texts : List String} (h : isSteady (s :: texts) = true) :
    (∀ c ∈ s.toList.head?, c ≠ '#' ∧ isBlank c = false) ∧
      ∀ last ∈ (s :: texts).getLast?, ∀ c ∈ last.toList.getLast?, isBlank c = false := by
  simp only [isSteady, List.head?_cons, Option.all_some, Option.all_eq_true, Bool.and_eq_true,
    bne_iff_ne, Bool.not_eq_true'] at h
  exact h

theorem isPlain_of_isSteady {t : Token} {texts : List String}
    (h : isSteady (t.text :: texts) = true) : t.isPlain = true := by
  obtain ⟨hhead, -⟩ := isSteady_cons h
  unfold Token.isPlain
  split
  · rename_i c hc
    obtain ⟨hsharp, hblank⟩ := hhead c (by rw [hc]; rfl)
    simp [hsharp, hblank]
  · rfl

/-- A declaration falls into the tokens that it has in the file, but for the white space at its
end. -/
theorem tokens_excerptOf_trimmed {k : Cursor} {cs : List Char} {first stop : Token}
    {more post : List Token} (h : lexFrom k cs = first :: (more ++ stop :: post))
    (hplain : first.isPlain = true) :
    Declaration.tokens (excerptOf first more stop).text =
      Token.trimmedTexts stop.gap (first :: more) := by
  obtain ⟨k', cs', hhere, -⟩ := Token.exists_lexFrom_behind_gap h
  have hstretch : lexFrom k' cs' = { first with gap := "" } :: more ++ stop :: post := hhere
  have htexts := Token.texts_trimmed hstretch (fun _ => rfl)
    (.inr (Token.sharpFirst_of_isPlain h hplain _))
  have hspell : (Token.spell ({ first with gap := "" } :: more) ++ stop.gap).toList =
      (first.text ++ textBefore more stop).toList := by
    simp [textBefore, Token.toList_spell_cons]
  have hhead : ∀ c ∈ (first.text ++ textBefore more stop).toList.head?, isBlank c = false := by
    have hne : first.text.toList ≠ [] := fun hnil =>
      Token.text_ne_empty h List.mem_cons_self (String.toList_inj.1 hnil)
    rw [String.toList_append, List.head?_append_of_ne_nil _ hne]
    exact Token.head_of_isPlain h hplain
  have htrim : (excerptOf first more stop).text.toList =
      Text.trimEnd (first.text ++ textBefore more stop).toList := by
    rw [excerptOf, Text.trim, String.toList_ofList, Text.trimBlanks_eq_trimEnd hhead]
  rw [hspell, ← htrim, Token.pieces, List.map_map] at htexts
  exact htexts

/-- A declaration falls into the tokens that it has in the file. -/
theorem tokens_excerptOf {k : Cursor} {cs : List Char} {first stop : Token}
    {more post : List Token} (h : lexFrom k cs = first :: (more ++ stop :: post))
    (hsteady : isSteady ((first :: more).map Token.text) = true) :
    Declaration.tokens (excerptOf first more stop).text = (first :: more).map Token.text := by
  rw [tokens_excerptOf_trimmed h (isPlain_of_isSteady hsteady)]
  refine Token.trimmedTexts_eq (fun t ht => Token.text_ne_empty h ?_) (fun t ht c hc => ?_) _
  · rw [← List.cons_append]
    exact List.mem_append_left _ ht
  · refine (isSteady_cons hsteady).2 t.text ?_ c hc
    rw [← List.map_cons, List.getLast?_map, ht]
    rfl

end Markup

end HeaderReflection
