import Mathlib.Data.List.Forall2
import HeaderReflection.Proofs.Token.Cut

/-!
# Slices

Consecutive tokens take up a slice of their text. On its own the slice falls into the same tokens,
if the first one is neither a number sign nor a white space character.

* `IsSlice.unique`: places determine a slice.
* `isSlice_tokens`, `isSlice_before`, `isSlice_between`: where a slice starts and ends.
* `shifted_of_map_piece`: tokens with the same pieces stand at places that differ by their starts.
* `shifted_slice`, `shifted_between`: the tokens of a slice.
-/

namespace HeaderReflection

/-- The part of a text between two places, each given by the number of bytes before it. -/
def IsSlice (source : String) (start stop : Nat) (slice : String) : Prop :=
  ∃ front behind : String, source = front ++ slice ++ behind ∧ front.utf8ByteSize = start ∧
    (front ++ slice).utf8ByteSize = stop

/-- Texts that the same text starts with are the same if they are of one size. -/
theorem Text.eq_of_utf8ByteSize_eq {a b c d : String} (h : a ++ b = c ++ d)
    (hsize : a.utf8ByteSize = c.utf8ByteSize) : a = c := by
  have hbytes : a.toByteArray ++ b.toByteArray = c.toByteArray ++ d.toByteArray := by
    rw [← String.toByteArray_append, h, String.toByteArray_append]
  exact String.toByteArray_inj.1 (ByteArray.append_inj_left hbytes hsize)

/-- A text has one slice between two places. -/
theorem IsSlice.unique {source slice slice' : String} {start stop : Nat}
    (h : IsSlice source start stop slice) (h' : IsSlice source start stop slice') :
    slice = slice' := by
  obtain ⟨front, behind, hsource, hstart, hstop⟩ := h
  obtain ⟨front', behind', hsource', hstart', hstop'⟩ := h'
  have hwhole : front ++ slice = front' ++ slice' :=
    Text.eq_of_utf8ByteSize_eq (hsource.symm.trans hsource') (hstop.trans hstop'.symm)
  obtain rfl := Text.eq_of_utf8ByteSize_eq hwhole (hstart.trans hstart'.symm)
  exact (String.append_right_inj _).1 hwhole

namespace Token

open Text (isBlank)

/-- The token is neither a number sign nor a white space character. -/
def isPlain (t : Token) : Bool :=
  match t.text.toList with
  | [c] => c != '#' && !isBlank c
  | _ => true

/-- The second token is the first one in a text that starts so many bytes further on. -/
structure Shifted (start : Nat) (t t' : Token) : Prop where
  kind : t'.kind = t.kind
  text : t'.text = t.text
  offset : start + t'.offset = t.offset
  stop : start + t'.stop = t.stop

variable {source : String} {cs cs' left : List Char} {k k' : Cursor}
  {first last opening close stop t : Token} {before more inside after ts ts' us us' : List Token}

/-! ## Where slices start and end -/

theorem spell_cons_eq (t : Token) (ts : List Token) :
    spell (t :: ts) = t.gap ++ spellTight (t :: ts) := by
  rw [← String.toList_inj, toList_spell_cons]
  simp [spellTight]

/-- In front of a token stand those before it and its gap. -/
theorem exists_front (h : lex source = before ++ t :: after) :
    ∃ behind : String, source = spell before ++ t.gap ++ behind ∧
      t.offset = (spell before ++ t.gap).utf8ByteSize := by
  obtain ⟨gap, behind, hsource, -, -, -, hplace⟩ := exists_gap h
  obtain ⟨rfl, -, -, hoffset, -⟩ := hplace t rfl
  exact ⟨behind, hsource, hoffset⟩

/-- The slice that tokens take up. -/
theorem isSlice_tokens (h : lex source = before ++ first :: more ++ after)
    (hlast : last ∈ (first :: more).getLast?) :
    IsSlice source first.offset last.stop (spellTight (first :: more)) := by
  have hfirst : lex source = before ++ first :: (more ++ after) := by
    rw [h, List.append_assoc, List.cons_append]
  obtain ⟨-, -, hoffset⟩ := exists_front hfirst
  obtain ⟨rest, hrest, -⟩ := exists_lexFrom_behind h
  obtain ⟨init, hinit⟩ := List.getLast?_eq_some_iff.1 hlast
  have hstop : last.stop = (spell (before ++ first :: more)).utf8ByteSize := by
    have hend : lex source = (before ++ init) ++ last :: after := by
      rw [h, hinit, List.append_assoc, List.append_assoc, List.append_assoc, List.singleton_append]
    rw [stop_eq hend, hinit, List.append_assoc]
  have hspell : spell (before ++ first :: more) =
      spell before ++ first.gap ++ spellTight (first :: more) := by
    rw [spell_append, spell_cons_eq, String.append_assoc]
  refine ⟨spell before ++ first.gap, String.ofList rest, ?_, hoffset.symm, ?_⟩
  · rw [← hspell, ← String.toList_inj, hrest, String.toList_append, String.toList_ofList]
  · rw [← hspell, hstop]

/-- The slice from a token up to one that stands behind it. -/
theorem isSlice_before (h : lex source = before ++ first :: more ++ stop :: after) :
    IsSlice source first.offset stop.offset (spellTight (first :: more) ++ stop.gap) := by
  have hfirst : lex source = before ++ first :: (more ++ stop :: after) := by
    rw [h, List.append_assoc, List.cons_append]
  obtain ⟨-, -, hoffset⟩ := exists_front hfirst
  obtain ⟨behind, hsource, hstop⟩ := exists_front h
  have hspell : spell (before ++ first :: more) ++ stop.gap =
      spell before ++ first.gap ++ (spellTight (first :: more) ++ stop.gap) := by
    rw [spell_append, spell_cons_eq, ← String.append_assoc, ← String.append_assoc]
  exact ⟨spell before ++ first.gap, behind, hspell ▸ hsource, hoffset.symm, hspell ▸ hstop.symm⟩

/-- The slice between two tokens. -/
theorem isSlice_between (h : lex source = before ++ opening :: inside ++ close :: after) :
    IsSlice source opening.stop close.offset (spell inside ++ close.gap) := by
  have hopening : lex source = before ++ opening :: (inside ++ close :: after) := by
    rw [h, List.append_assoc, List.cons_append]
  obtain ⟨behind, hsource, hclose⟩ := exists_front h
  have hspell : spell (before ++ opening :: inside) ++ close.gap =
      spell (before ++ [opening]) ++ (spell inside ++ close.gap) := by
    rw [List.append_cons, spell_append, String.append_assoc]
  exact ⟨spell (before ++ [opening]), behind, hspell ▸ hsource, (stop_eq hopening).symm,
    hspell ▸ hclose.symm⟩

/-! ## Tokens and their places -/

/-- A token starts behind its gap, and the next one is read where it ends. -/
theorem exists_lexFrom_stop (h : lexFrom k cs = t :: ts) :
    t.offset = k.offset + t.gap.utf8ByteSize ∧
      ∃ k' cs', lexFrom k' cs' = ts ∧ k'.offset = t.stop := by
  rcases hg : splitGap k.lineStart cs with ⟨gap, _ | ⟨c, rest⟩⟩
  · rw [lexFrom_eq_nil (by rw [hg])] at h
    cases h
  · rw [lexFrom_eq_cons hg] at h
    obtain ⟨rfl, rfl⟩ := List.cons.inj h
    refine ⟨by rw [← Text.byteLength_ofList]; rfl, _, _, rfl, ?_⟩
    rw [stop, ← Text.byteLength_ofList]
    rfl

/-- Tokens with the same pieces stand at places that differ by the starts of their texts. -/
theorem shifted_of_map_piece {start : Nat} (h : lexFrom k cs = ts ++ us)
    (h' : lexFrom k' cs' = ts' ++ us') (hpieces : ts'.map piece = ts.map piece)
    (hstart : start + k'.offset = k.offset) : List.Forall₂ (Shifted start) ts ts' := by
  induction ts generalizing k k' cs cs' ts' with
  | nil =>
    rw [List.map_eq_nil_iff.1 hpieces]
    exact .nil
  | cons t ts ih =>
    obtain ⟨t', ts', rfl, hpiece, hrest⟩ := List.map_eq_cons_iff.1 hpieces
    simp only [piece, Piece.mk.injEq] at hpiece
    obtain ⟨hgap, hkind, htext⟩ := hpiece
    obtain ⟨hoffset, k₁, cs₁, hts, hk₁⟩ := exists_lexFrom_stop h
    obtain ⟨hoffset', k₁', cs₁', hts', hk₁'⟩ := exists_lexFrom_stop h'
    have hplace : start + t'.offset = t.offset := by
      rw [hoffset, hoffset', hgap, ← hstart, Nat.add_assoc]
    have hstop : start + t'.stop = t.stop := by
      rw [stop, stop, htext, ← hplace, Nat.add_assoc]
    exact .cons ⟨hkind, htext, hplace, hstop⟩
      (ih hts hts' hrest (by rw [hk₁, hk₁', hstop]))

/-! ## The tokens of a slice -/

/-- A plain token starts with no white space: a white space character is a token of its own. -/
theorem head_of_isPlain (h : lexFrom k cs = t :: ts) (hplain : t.isPlain = true) :
    ∀ c ∈ t.text.toList.head?, isBlank c = false := by
  obtain ⟨gap, c, taken, after, -, hlex, -, htext, -⟩ := exists_lexeme_of_lexFrom h
  rw [htext, String.toList_ofList]
  rintro d ⟨⟩
  rw [Bool.eq_false_iff]
  intro hc
  rw [splitLexeme_blank hc] at hlex
  obtain rfl : [] = taken := (List.cons.inj (Prod.mk.inj (Prod.mk.inj hlex).2).1).2
  simp [isPlain, htext, hc] at hplain

theorem sharpFirst_of_isPlain (h : lexFrom k cs = t :: ts) (hplain : t.isPlain = true)
    (texts : List String) : sharpFirst (t.text :: texts) = false := by
  have hhead := head_of_isPlain h hplain
  have hsharp : t.text ≠ "#" := by
    intro hsharp
    simp [isPlain, hsharp] at hplain
  have hall : t.text.toList.all isBlank = false := by
    cases htext : t.text.toList with
    | nil => exact absurd (String.toList_inj.1 htext) (text_ne_empty h List.mem_cons_self)
    | cons c cs =>
      rw [htext] at hhead
      simp [hhead c rfl]
  simp [sharpFirst, hall, hsharp]

/-- The tokens are the same in the text behind the first gap. -/
theorem exists_lexFrom_behind_gap (h : lexFrom k cs = t :: ts) :
    ∃ k' cs', lexFrom k' cs' = { t with gap := "" } :: ts ∧ k'.offset = t.offset := by
  rcases hg : splitGap k.lineStart cs with ⟨gap, _ | ⟨c, rest⟩⟩
  · rw [lexFrom_eq_nil (by rw [hg])] at h
    cases h
  · have hnone := gapPiece_behind_splitGap hg
    rw [lexFrom_eq_cons hg] at h
    obtain ⟨rfl, rfl⟩ := List.cons.inj h
    exact ⟨k.past gap, c :: rest, lexFrom_eq_cons (splitGap_of_none hnone), rfl⟩

/-- The tokens of a slice that is cut out, alone or with the gap behind it. -/
theorem shifted_slice (h : lex source = before ++ first :: more ++ after)
    (hplain : first.isPlain = true) {gap : String}
    (hgap : gap = "" ∨ ∃ u ∈ after.head?, gap = u.gap) :
    List.Forall₂ (Shifted first.offset) (first :: more)
      (lex (spellTight (first :: more) ++ gap)) := by
  rw [List.append_assoc] at h
  obtain ⟨rest, -, hfirst⟩ := exists_lexFrom_behind h
  obtain ⟨k, cs, hhere, hoffset⟩ := exists_lexFrom_behind_gap hfirst.symm
  -- Cut out, the first token has no gap.
  generalize htight : ({ first with gap := "" } : Token) = tight at hhere
  have hstretch : lexFrom k cs = (tight :: more) ++ after := hhere
  have hsharp : sharpFirst ((tight :: more).map text) = false := by
    rw [List.map_cons, ← htight]
    exact sharpFirst_of_isPlain hfirst.symm hplain _
  have hspell : spell (tight :: more) = spellTight (first :: more) := by
    rw [spell_cons_eq, ← htight]
    exact String.empty_append
  have hpieces : pieces true ((spell (tight :: more)).toList ++ gap.toList) =
      (tight :: more).map piece := by
    rcases hgap with rfl | ⟨u, hu, rfl⟩
    · obtain ⟨rest', rfl, -⟩ := exists_lexFrom_behind hstretch
      refine pieces_stretch hstretch ?_ (fun start _ => ?_) (fun _ => rfl)
        (.inr hsharp)
      · simp
      · exact congrArg Prod.snd (splitGap_of_none rfl)
    · obtain ⟨us, rfl⟩ := List.head?_eq_some_iff.1 hu
      exact pieces_cut hstretch (fun _ => rfl) (.inr hsharp)
  rw [hspell, ← String.toList_append] at hpieces
  have hshifted := shifted_of_map_piece hstretch (List.append_nil _).symm
    ((map_piece_lexFrom .start _).trans hpieces) (Nat.add_zero k.offset)
  rw [hoffset] at hshifted
  obtain ⟨t, ts, ht, hts, hlex⟩ := List.forall₂_cons_left_iff.1 hshifted
  rw [lex, hlex]
  subst htight
  exact .cons ⟨ht.kind, ht.text, ht.offset, ht.stop⟩ hts

/-- The tokens between two others, with their gaps. -/
theorem pieces_between (h : lexFrom k cs = inside ++ close :: after)
    (hsharp : sharpFirst (inside.map text) = false) :
    (lex (spell inside ++ close.gap)).map piece = inside.map piece := by
  rw [lex, String.toList_append, map_piece_lexFrom]
  exact pieces_cut h (fun _ => rfl) (.inr hsharp)

/-- The tokens of a slice between two others. -/
theorem shifted_between (h : lex source = before ++ opening :: inside ++ close :: after)
    (hsharp : sharpFirst (inside.map text) = false) :
    List.Forall₂ (Shifted opening.stop) inside (lex (spell inside ++ close.gap)) := by
  have hopening : lex source = before ++ opening :: (inside ++ close :: after) := by
    rw [h, List.append_assoc, List.cons_append]
  have hbehind : lex source = (before ++ [opening]) ++ (inside ++ close :: after) := by
    rw [hopening, ← List.append_cons]
  obtain ⟨rest, -, hinside⟩ := exists_lexFrom_behind hbehind
  refine shifted_of_map_piece hinside.symm (List.append_nil _).symm
    (pieces_between hinside.symm hsharp) ?_
  rw [Cursor.offset_start, stop_eq hopening]
  exact Nat.add_zero _

end Token

end HeaderReflection
