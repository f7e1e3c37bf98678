import HeaderReflection.Proofs.Token.Fillers
import HeaderReflection.Proofs.Token.Stretch

/-!
# Tokens in their text

The tokens of a text stand where they say, one behind the other, and all that stands in front of
them, between them and behind them are fillers.

* `Position.past_start`: the line and the column behind a text.
* `exists_lexFrom_behind`: the tokens behind some tokens are those of the text behind them.
* `exists_gap`, `stop_eq`: where a token starts and ends.
* `lex_partition`: tokens and fillers make up the text.
-/

namespace HeaderReflection

namespace Text

/-- A position tells the number of line ends before it, and the number of characters before it in
its line. -/
theorem Position.past_start (cs : List Char) :
    Position.start.past cs = ⟨cs.count '\n' + 1, (Token.lastLine cs).length + 1⟩ := by
  induction cs using List.reverseRecOn with
  | nil => rfl
  | append_singleton cs c ih =>
    rw [past_append, ih, past_cons, past_nil, advance, Token.lastLine_concat]
    by_cases hc : c = '\n' <;> simp [hc]

theorem byteLength_append (cs ds : List Char) :
    byteLength (cs ++ ds) = byteLength cs + byteLength ds := by
  induction cs with
  | nil => simp [byteLength]
  | cons c cs ih => simp [byteLength, ih, Nat.add_assoc]

theorem byteLength_ofList (cs : List Char) :
    byteLength cs = (String.ofList cs).utf8ByteSize := by
  induction cs with
  | nil => rfl
  | cons c cs ih =>
    rw [byteLength, ih, String.ofList_cons, String.utf8ByteSize_append,
      String.utf8ByteSize_singleton]

theorem byteLength_toList (s : String) : byteLength s.toList = s.utf8ByteSize := by
  rw [byteLength_ofList, String.ofList_toList]

end Text

namespace Token

open Text (Position byteLength_toList)

variable {k : Cursor} {cs : List Char} {source : String} {t : Token} {ts us : List Token}

theorem Cursor.past_append (k : Cursor) (cs ds : List Char) :
    k.past (cs ++ ds) = (k.past cs).past ds := by
  simp [past, Text.byteLength_append, Position.past_append, atLineStart_append, Nat.add_assoc]

theorem Cursor.offset_start (s : String) : (start.past s.toList).offset = s.utf8ByteSize := by
  rw [past, byteLength_toList]
  exact Nat.zero_add _

theorem spell_append (ts us : List Token) : spell (ts ++ us) = spell ts ++ spell us := by
  simp [spell, String.join_append]

theorem spell_singleton (t : Token) : spell [t] = t.gap ++ t.text := by
  simp [spell]

/-- The tokens behind some tokens are those of the text behind them. -/
theorem exists_lexFrom_behind (h : lexFrom k cs = ts ++ us) :
    ∃ rest, cs = (spell ts).toList ++ rest ∧ us = lexFrom (k.past (spell ts).toList) rest := by
  induction ts generalizing k cs with
  | nil => exact ⟨cs, rfl, h.symm⟩
  | cons t ts ih =>
    obtain ⟨gap, c, rest, hg, hgap, -, htext, hts⟩ := lexFrom_eq_cons_iff h
    obtain ⟨tail, htail, hus⟩ := ih hts.symm
    have hcs := append_splitGap k.lineStart cs
    have hlex := append_splitLexeme c rest
    rw [hg] at hcs
    rw [toList_spell_cons, Cursor.past_append, Cursor.past_append, hgap, htext,
      String.toList_ofList, String.toList_ofList]
    refine ⟨tail, ?_, hus⟩
    rw [← hcs, ← hlex, htail]
    simp

/-! ## Between tokens -/

/-- Behind some tokens of a text stand fillers up to the next token, or to the end of the text. -/
theorem exists_gap (h : lex source = ts ++ us) :
    ∃ gap after : String, source = spell ts ++ gap ++ after ∧
      Fillers (spell ts).toList gap.toList after.toList ∧
      (∀ piece more, after.toList = piece ++ more → ¬Filler (spell ts ++ gap).toList piece more) ∧
      (us = [] → after = "") ∧
      ∀ t ∈ us.head?, t.gap = gap ∧ t.text ≠ "" ∧ (∃ rest, after = t.text ++ rest) ∧
        t.offset = (spell ts ++ gap).utf8ByteSize ∧
        t.position = Position.start.past (spell ts ++ gap).toList := by
  obtain ⟨rest, hsource, hus⟩ := exists_lexFrom_behind h
  have hfillers := fillers_splitGap (spell ts).toList rest
  have happend := append_splitGap (atLineStart true (spell ts).toList) rest
  rcases hg : splitGap (atLineStart true (spell ts).toList) rest with ⟨gap, tail⟩
  rw [hg] at hfillers happend
  refine ⟨String.ofList gap, String.ofList tail, ?_, ?_, fun piece more hmore => ?_,
    fun hnil => ?_, fun t ht => ?_⟩
  · rw [← String.toList_inj, hsource, ← happend]
    simp
  · simpa using hfillers
  · rw [String.toList_append, String.toList_ofList]
    rw [String.toList_ofList] at hmore
    rw [hmore] at hg
    exact not_filler_behind_gap hg
  · rw [hnil] at hus
    have hempty := (lexFrom_eq_nil_iff _ _).1 hus.symm
    have hempty : (splitGap (atLineStart true (spell ts).toList) rest).2 = [] := hempty
    rw [hg] at hempty
    rw [show tail = [] from hempty, String.ofList_nil]
  · cases tail with
    | nil =>
      rw [lexFrom_eq_nil (congrArg Prod.snd hg)] at hus
      rw [hus] at ht
      cases ht
    | cons c tail =>
      rw [lexFrom_eq_cons hg] at hus
      rw [hus] at ht
      obtain rfl := Option.some.inj ht
      have hlexeme := append_splitLexeme c tail
      refine ⟨rfl, ?_, ⟨String.ofList (splitLexeme c tail).2.2, ?_⟩, ?_, ?_⟩
      · intro hempty
        exact splitLexeme_ne_nil c tail (by simpa using congrArg String.toList hempty)
      · rw [← hlexeme, String.ofList_append]
      · rw [← Cursor.offset_start, String.toList_append, String.toList_ofList, Cursor.past_append]
      · rw [String.toList_append, String.toList_ofList, Position.past_append]
        rfl

/-- A token ends behind its text. -/
theorem stop_eq (h : lex source = ts ++ t :: us) :
    t.stop = (spell (ts ++ [t])).utf8ByteSize := by
  obtain ⟨gap, after, -, -, -, -, ht⟩ := exists_gap h
  obtain ⟨hgap, -, -, hoffset, -⟩ := ht t rfl
  rw [stop, hoffset, spell_append, spell_singleton, hgap, ← String.append_assoc,
    String.utf8ByteSize_append (t := t.text)]

theorem stop_le (h : lex source = ts ++ us) (ht : t ∈ ts) :
    t.stop ≤ (spell ts).utf8ByteSize := by
  obtain ⟨front, back, rfl⟩ := List.append_of_mem ht
  rw [List.append_assoc, List.cons_append] at h
  rw [stop_eq h, List.append_cons front t back, spell_append _ back, String.utf8ByteSize_append]
  exact Nat.le_add_right ..

theorem le_offset (h : lex source = ts ++ us) (ht : t ∈ us) :
    (spell ts).utf8ByteSize ≤ t.offset := by
  obtain ⟨front, back, rfl⟩ := List.append_of_mem ht
  rw [← List.append_assoc] at h
  obtain ⟨gap, after, -, -, -, -, hplace⟩ := exists_gap h
  obtain ⟨-, -, -, hoffset, -⟩ := hplace t rfl
  rw [hoffset, spell_append, String.append_assoc, String.utf8ByteSize_append]
  exact Nat.le_add_right ..

/-- **Tokens and fillers make up a text.** Each token stands at its offset, which is behind the
characters before it, and no filler starts there; its position counts the line ends before it and
the characters before it in its line. Tokens end before the ones behind them start. Between
neighbours, in front of the first token and behind the last there are fillers only. -/
theorem lex_partition (source : String) :
    (∀ t ∈ lex source, ∃ before after : String, source = before ++ t.text ++ after ∧
      t.offset = before.utf8ByteSize ∧ t.offset < t.stop ∧ t.stop ≤ source.utf8ByteSize ∧
      t.position = ⟨before.toList.count '\n' + 1, (lastLine before.toList).length + 1⟩ ∧
      ∀ piece rest, (t.text ++ after).toList = piece ++ rest →
        ¬Filler before.toList piece rest) ∧
    (lex source).Pairwise (fun t u => t.stop ≤ u.offset) ∧
    ∀ ts us, lex source = ts ++ us → ∃ before gap after : String,
      source = before ++ gap ++ after ∧
      before.utf8ByteSize = (ts.getLast?.map stop).getD 0 ∧
      (before ++ gap).utf8ByteSize = (us.head?.map offset).getD source.utf8ByteSize ∧
      Fillers before.toList gap.toList after.toList := by
  refine ⟨fun t ht => ?_, ?_, fun ts us h => ?_⟩
  · obtain ⟨ts, us, h⟩ := List.append_of_mem ht
    obtain ⟨gap, after, hsource, -, hnone, -, hplace⟩ := exists_gap h
    obtain ⟨-, hne, ⟨rest, rfl⟩, hoffset, hposition⟩ := hplace t rfl
    have hpos : t.text.utf8ByteSize ≠ 0 :=
      fun hzero => hne (String.utf8ByteSize_eq_zero_iff.1 hzero)
    refine ⟨spell ts ++ gap, rest, by rw [hsource, ← String.append_assoc], hoffset, ?_, ?_, ?_,
      hnone⟩
    · rw [stop]
      omega
    · rw [stop, hoffset, hsource]
      simp only [String.utf8ByteSize_append]
      omega
    · rw [hposition, Position.past_start]
  · rw [List.pairwise_iff_forall_sublist]
    intro t u htu
    obtain ⟨ts, us, h, ht, hu⟩ := List.cons_sublist_iff.1 htu
    exact (stop_le h ht).trans (le_offset h (List.singleton_sublist.1 hu))
  · obtain ⟨gap, after, hsource, hfillers, -, hend, hplace⟩ := exists_gap h
    refine ⟨spell ts, gap, after, hsource, ?_, ?_, hfillers⟩
    · rcases List.eq_nil_or_concat ts with rfl | ⟨front, t, rfl⟩
      · rfl
      · rw [List.concat_eq_append, List.append_assoc, List.singleton_append] at h
        rw [List.concat_eq_append, List.getLast?_concat, Option.map_some, Option.getD_some,
          stop_eq h]
    · cases us with
      | nil => rw [hsource, hend rfl, String.append_empty]; rfl
      | cons t us => exact (hplace t rfl).2.2.2.1.symm

end Token

end HeaderReflection
