import HeaderReflection.Attribute.Render
import HeaderReflection.Proofs.Attribute.Readable
import HeaderReflection.Proofs.Attribute.Reread
import HeaderReflection.Proofs.Number.RoundTrip
import HeaderReflection.Proofs.Text.CharClass

/-!
# Rereading attributes

* `readList_renderList`: the text of a list is read as the list with its lone flag words read as
  flags.
* `parse_render_iff`: attributes that were read from a text are read back from their own text, as
  themselves if and only if no list nested in them is a lone flag word.
-/

namespace HeaderReflection

open Text (Position isBlank isAlphanumeric isAsciiDigit isWordChar)
open Attribute

/-! ## Characters of texts -/

namespace Attribute

/-- What may follow an attribute: nothing, a comma or the end of its list. -/
def Stops (rest : List Char) : Prop :=
  ∀ c ∈ rest.head?, c = ',' ∨ c = ')'

theorem Stops.outside {p : Char → Bool} {rest : List Char} (h : Stops rest)
    (hcomma : p ',' = false) (hclose : p ')' = false) : ∀ c ∈ rest.head?, p c = false := by
  intro c hc
  rcases h c hc with rfl | rfl
  · exact hcomma
  · exact hclose

theorem isBlank_eq_false_of_isKeyChar {c : Char} (h : isKeyChar c = true) :
    isBlank c = false := by
  simp only [isKeyChar, Bool.or_eq_true, beq_iff_eq] at h
  rcases h with (h | rfl) | rfl
  · exact Text.isBlank_eq_false_of_isAlphanumeric h
  · decide
  · decide

/-- A character of keys that opens a number is a digit. -/
theorem opensNumber_of_isKeyChar {c : Char} (h : isKeyChar c = true) :
    opensNumber c = isAsciiDigit c := by
  have hne : ∀ d, isKeyChar d = false → (c == d) = false := by
    rintro d hd
    rw [beq_eq_false_iff_ne]
    rintro rfl
    rw [hd] at h
    cases h
  unfold opensNumber
  rw [hne '-' (by decide), hne '+' (by decide), hne '.' (by decide), Bool.or_false, Bool.or_false,
    Bool.or_false]

theorem skipBlanks_of_head {p : Position} {cs : List Char}
    (h : ∀ c ∈ cs.head?, isBlank c = false) :
    (Reader.skipBlanks ⟨p, cs⟩) = ⟨p, cs⟩ := by
  cases cs with
  | nil => rfl
  | cons c cs => simp [Reader.skipBlanks, Reader.dropWhile, h c rfl]

theorem skipBlanks_space (p : Position) (cs : List Char) :
    Reader.skipBlanks ⟨p, ' ' :: cs⟩ = Reader.skipBlanks ⟨p.advance ' ', cs⟩ := rfl

theorem renderRest_cons (e : String × AttributeValue) (m : Attributes) :
    AttributeValue.renderRest (e :: m) = ',' :: ' ' :: AttributeValue.renderList (e :: m) := rfl

theorem stops_renderRest (m : Attributes) {rest : List Char} (h : Stops rest) :
    Stops (AttributeValue.renderRest m ++ rest) := by
  cases m with
  | nil => exact h
  | cons e m =>
    rw [renderRest_cons]
    rintro c hc
    cases Option.some.inj hc
    exact .inl rfl

/-- A list that is not empty starts with its first key. -/
theorem head?_renderList {m : Attributes} {e : String × AttributeValue} (he : m.head? = some e)
    (hk : IsKey e.1) (rest : List Char) :
    (AttributeValue.renderList m ++ rest).head? = e.1.toList.head? := by
  cases m with
  | nil => cases he
  | cons d m =>
    cases Option.some.inj he
    obtain ⟨c, cs, hcs⟩ := List.exists_cons_of_ne_nil hk.1
    rw [AttributeValue.renderList, hcs]
    rfl

/-- A list starts with a character of a key or at its end. -/
theorem head_renderList {m : Attributes} (hm : ∀ e ∈ m, IsKey e.1) {rest : List Char} {c : Char}
    (hc : c ∈ (AttributeValue.renderList m ++ rest).head?) :
    isKeyChar c = true ∨ c ∈ rest.head? := by
  cases m with
  | nil => exact .inr hc
  | cons e m =>
    have hk := hm e List.mem_cons_self
    rw [head?_renderList rfl hk] at hc
    exact .inl (hk.2 c (List.mem_of_head? hc))

/-- Nothing blank stands at the start of a list. -/
theorem skipBlanks_renderList {p : Position} {m : Attributes} (hm : ∀ e ∈ m, IsKey e.1)
    {rest : List Char} (hrest : Stops rest) :
    Reader.skipBlanks ⟨p, AttributeValue.renderList m ++ rest⟩ =
      ⟨p, AttributeValue.renderList m ++ rest⟩ := by
  refine skipBlanks_of_head fun c hc => ?_
  rcases head_renderList hm hc with h | h
  · exact isBlank_eq_false_of_isKeyChar h
  · exact hrest.outside (by decide) (by decide) c h

/-! ## Reading the parts of an attribute -/

theorem readKey_append {p : Position} {key : String} {rest : List Char} (hk : IsKey key)
    (hrest : ∀ c ∈ rest.head?, isKeyChar c = false) :
    readKey ⟨p, key.toList ++ rest⟩ = .ok (key, ⟨p.past key.toList, rest⟩) := by
  unfold readKey Reader.dropWhile
  dsimp only
  rw [Text.takeWhile_run hk.2 hrest, Text.dropWhile_run hk.2 hrest]
  split
  · rename_i h
    exact absurd h hk.1
  · rw [String.ofList_toList]

theorem readText_escapeQuoted (cs rest : List Char) (p : Position) :
    ∃ p', readText p (escapeQuoted cs ++ '\x22' :: rest) = .ok (cs, ⟨p', rest⟩) := by
  induction cs generalizing p with
  | nil =>
    refine ⟨p.advance '\x22', ?_⟩
    rw [escapeQuoted, List.nil_append, readText.eq_4 _ _ _ (by simp) (by simp), if_pos rfl]
  | cons c cs ih =>
    rw [escapeQuoted]
    split
    · rename_i h
      have hc : unescape c = c := by
        rcases Bool.or_eq_true_iff.1 h with h | h <;> rw [of_decide_eq_true h] <;> decide
      obtain ⟨p', hp⟩ := ih ((p.advance '\\').advance c)
      refine ⟨p', ?_⟩
      rw [List.cons_append, List.cons_append, readText, hp, hc]
      rfl
    · rename_i h
      simp only [Bool.or_eq_true, decide_eq_true_eq, not_or] at h
      obtain ⟨p', hp⟩ := ih (p.advance c)
      refine ⟨p', ?_⟩
      rw [List.cons_append, readText.eq_4 _ _ _ (by simp [h.1]) (by simp [h.1]), if_neg h.2, hp]
      rfl

theorem trimSuffix_eq_self {cs : List Char} (h : ∀ c ∈ cs, c ≠ 'f' ∧ c ≠ 'F') :
    trimSuffix cs = cs := by
  have hdrop : (cs.reverse.dropWhile fun c => c = 'f' || c = 'F') = cs.reverse := by
    rw [List.dropWhile_eq_self_iff]
    intro hl
    have hmem := h _ (List.mem_reverse.1 (List.getElem_mem hl))
    simp only [Bool.or_eq_true, decide_eq_true_eq, not_or]
    exact hmem
  rw [trimSuffix, hdrop, List.reverse_reverse]

/-- The characters of plain texts go on in a literal and are no suffix of it. -/
theorem isLiteralChar_of_mem_plainChars {x : Number} (hx : x.isFinite = true) {c : Char}
    (hc : c ∈ x.plainChars) : isLiteralChar c = true ∧ c ≠ 'f' ∧ c ≠ 'F' := by
  rcases Number.mem_plainChars hx hc with h | rfl | rfl
  · refine ⟨by simp [isLiteralChar, Text.isAsciiAlphanumeric, h], ?_, ?_⟩ <;>
    · rintro rfl
      exact absurd h (by decide)
  · decide
  · decide

theorem readNumber_plainChars {x : Number} (hx : x.isFinite = true) (p : Position)
    (rest : List Char) :
    ∃ p', readNumber ⟨p, x.plainChars ++ ')' :: rest⟩ = .ok (x, ⟨p', ')' :: rest⟩) := by
  have hlit := fun c hc => (isLiteralChar_of_mem_plainChars hx (c := c) hc).1
  have hclose : ∀ c ∈ (')' :: rest).head?, isLiteralChar c = false := by
    intro c hc
    cases Option.some.inj hc
    decide
  refine ⟨p.past x.plainChars, ?_⟩
  unfold readNumber Reader.dropWhile
  dsimp only
  rw [Text.takeWhile_run hlit hclose, Text.dropWhile_run hlit hclose,
    trimSuffix_eq_self fun c hc => (isLiteralChar_of_mem_plainChars hx hc).2,
    Number.read?_plainChars hx]

theorem skipBlanks_close (p : Position) (rest : List Char) :
    Reader.skipBlanks ⟨p, ')' :: rest⟩ = ⟨p, ')' :: rest⟩ :=
  skipBlanks_of_head fun c hc => by cases Option.some.inj hc; decide

theorem readBounds_close (fuel : Nat) (p : Position) (rest : List Char) :
    readBounds fuel ⟨p, ')' :: rest⟩ = .ok ([], ⟨p, ')' :: rest⟩) := by
  cases fuel with
  | zero => rfl
  | succ fuel =>
    rw [readBounds, skipBlanks_close]
    rfl

theorem readNumeric_plainChars {x : Number} (hx : x.isFinite = true) (p : Position)
    (rest : List Char) :
    ∃ p', readNumeric ⟨p, x.plainChars ++ ')' :: rest⟩ = .ok (.number x, ⟨p', ')' :: rest⟩) := by
  obtain ⟨p', hp⟩ := readNumber_plainChars hx p rest
  refine ⟨p', ?_⟩
  unfold readNumeric
  rw [hp, ok_bind]
  dsimp only
  rw [readBounds_close]
  rfl

/-! ## Reading a value -/

/-- A bare word behind a parenthesis is read as a flag just when it spells one and nothing but the
closing parenthesis follows it. -/
theorem readFlag?_word {p : Position} {word rest : List Char}
    (hword : ∀ c ∈ word, isWordChar c = true) (hrest : ∀ c ∈ rest.head?, isWordChar c = false)
    (hblank : ∀ c ∈ rest.head?, isBlank c = false) :
    readFlag? ⟨p, word ++ rest⟩ =
      if rest.head? = some ')' then
        if word = "true".toList then some (true, ⟨p.past word, rest⟩)
        else if word = "false".toList then some (false, ⟨p.past word, rest⟩)
        else none
      else none := by
  unfold readFlag?
  dsimp only [Reader.dropWhile]
  rw [Text.takeWhile_run hword hrest, Text.dropWhile_run hword hrest, skipBlanks_of_head hblank]
  rfl

/-- A value is a bare true flag or stands in parentheses. -/
theorem renderChars_cases (value : AttributeValue) :
    value = .flag true ∧ value.renderChars = [] ∨
      value ≠ .flag true ∧ ∃ inner, value.renderChars = '(' :: inner := by
  cases value with
  | flag b =>
    cases b with
    | true => exact .inl ⟨rfl, rfl⟩
    | false => exact .inr ⟨by simp, _, rfl⟩
  | text s => exact .inr ⟨by simp, _, rfl⟩
  | number x => exact .inr ⟨by simp, _, rfl⟩
  | nested m => exact .inr ⟨by simp, _, rfl⟩

/-- What stands behind a key is none of its characters and no blank, and it is the end of the list
only behind a bare key. -/
theorem head_behind_key (value : AttributeValue) (m : Attributes) {rest : List Char}
    (hrest : rest.head? = some ')') :
    ∃ c, (value.renderChars ++ AttributeValue.renderRest m ++ rest).head? = some c ∧
      (c = ',' ∨ c = '(' ∨ c = ')') ∧ (c = ')' ↔ value = .flag true ∧ m = []) := by
  rcases renderChars_cases value with ⟨rfl, hv⟩ | ⟨hne, inner, hv⟩
  · rw [hv]
    cases m with
    | nil => exact ⟨')', hrest, .inr (.inr rfl), by simp⟩
    | cons e m => exact ⟨',', rfl, .inl rfl, by simp⟩
  · rw [hv]
    exact ⟨'(', rfl, .inr (.inl rfl), by simp [hne]⟩

/-- A list that is read as a flag is the flag's word alone. -/
theorem readFlag?_lone {m : Attributes} {b : Bool} (h : m.loneFlag? = some b) (p : Position)
    (rest : List Char) : ∃ p', readFlag? ⟨p, AttributeValue.renderList m ++ ')' :: rest⟩ =
      some (b, ⟨p', ')' :: rest⟩) := by
  have hm : m = [(if b then "true" else "false", .flag true)] := by
    unfold Attributes.loneFlag? at h
    split at h
    · split at h
      · cases Option.some.inj h
        simp_all
      · split at h
        · cases Option.some.inj h
          simp_all
        · cases h
    · cases h
  subst hm
  have hclose : isWordChar ')' = false ∧ isBlank ')' = false := by decide
  cases b with
  | true =>
    refine ⟨p.past "true".toList, ?_⟩
    show readFlag? ⟨p, "true".toList ++ ')' :: rest⟩ = _
    rw [readFlag?_word (by decide) (by simp [hclose]) (by simp [hclose])]
    rfl
  | false =>
    refine ⟨p.past "false".toList, ?_⟩
    show readFlag? ⟨p, "false".toList ++ ')' :: rest⟩ = _
    rw [readFlag?_word (by decide) (by simp [hclose]) (by simp [hclose])]
    rfl

/-- Any other list is not taken for a flag. -/
theorem readFlag?_other {m : Attributes} (hm : ∀ e ∈ m, IsKey e.1) (h : m.loneFlag? = none)
    (p : Position) (rest : List Char) :
    readFlag? ⟨p, AttributeValue.renderList m ++ ')' :: rest⟩ = none := by
  cases m with
  | nil =>
    show readFlag? ⟨p, [] ++ ')' :: rest⟩ = none
    exact readFlag?_word (by simp) (by simp; decide) (by simp; decide)
  | cons e m =>
    obtain ⟨key, value⟩ := e
    have hk : IsKey key := hm _ List.mem_cons_self
    obtain ⟨c, hc, hmark, hend⟩ :=
      head_behind_key value m (show (')' :: rest).head? = some ')' from rfl)
    rw [AttributeValue.renderList, List.append_assoc, List.append_assoc]
    rw [List.append_assoc] at hc
    generalize value.renderChars ++ (AttributeValue.renderRest m ++ ')' :: rest) = tail at hc
    by_cases hword : ∀ d ∈ key.toList, isWordChar d = true
    · have hout : isWordChar c = false ∧ isBlank c = false := by
        rcases hmark with rfl | rfl | rfl <;> decide
      rw [readFlag?_word hword (by simpa [hc] using hout.1) (by simpa [hc] using hout.2), hc]
      split
      · rename_i hclose
        obtain ⟨rfl, rfl⟩ := hend.1 (Option.some.inj hclose)
        have hne := Attributes.loneFlag?_eq_none_iff.1 h
        have ht : key.toList ≠ "true".toList := fun heq => hne.1 (by rw [String.toList_inj.1 heq])
        have hf : key.toList ≠ "false".toList := fun heq => hne.2 (by rw [String.toList_inj.1 heq])
        rw [if_neg ht, if_neg hf]
      · rfl
    · -- The word stops inside the key, and what stops it closes nothing.
      have hne : key.toList.dropWhile isWordChar ≠ [] := by
        rw [Ne, List.dropWhile_eq_nil_iff]
        exact hword
      obtain ⟨d, ds, hds⟩ := List.exists_cons_of_ne_nil hne
      have hd : isWordChar d = false := by
        have := List.head_dropWhile_not isWordChar hne
        simpa [hds] using this
      have hkey : isKeyChar d = true :=
        hk.2 d ((List.dropWhile_sublist _).subset (hds ▸ List.mem_cons_self))
      have hclose : d ≠ ')' := by
        rintro rfl
        exact absurd hkey (by decide)
      have hsplit : key.toList ++ tail =
          key.toList.takeWhile isWordChar ++ (d :: ds ++ tail) := by
        rw [← hds, ← List.append_assoc, List.takeWhile_append_dropWhile]
      rw [hsplit, readFlag?_word (fun x => List.mem_takeWhile_imp) (by simpa using hd)
        (by simpa using isBlank_eq_false_of_isKeyChar hkey), if_neg (by simpa using hclose)]

/-- The reader of nested lists reads one behind its parenthesis. -/
def ReadsNested (readNested : Reader → Except AttributeFault (Attributes × Reader))
    (value : AttributeValue) (rest : List Char) : Prop :=
  ∀ (m : Attributes) p, value = .nested m →
    ∃ p', readNested ⟨p, AttributeValue.renderList m ++ ')' :: rest⟩ =
      .ok (m.reread, ⟨p', ')' :: rest⟩)

/-- A list behind a parenthesis is read as a value. -/
theorem readValue_nested {readNested : Reader → Except AttributeFault (Attributes × Reader)}
    {m : Attributes} {rest : List Char} (hm : (AttributeValue.nested m).Readable) (p : Position)
    (hnested : ReadsNested readNested (.nested m) rest) :
    ∃ p', readValue readNested ⟨p, AttributeValue.renderList m ++ ')' :: rest⟩ =
      .ok ((AttributeValue.nested m).reread, ⟨p', ')' :: rest⟩) := by
  have hkeys := (Attributes.readable_of_nested hm).isKey
  have hquote : (AttributeValue.renderList m ++ ')' :: rest).head? ≠ some '\x22' := fun hc => by
    rcases head_renderList hkeys hc with h | h
    · exact absurd h (by decide)
    · exact absurd (Option.some.inj h) (by decide)
  have hopens : ∀ c ∈ (AttributeValue.renderList m ++ ')' :: rest).head?,
      opensNumber c = false := by
    intro c hc
    cases hhead : m.head? with
    | none =>
      rw [List.head?_eq_none_iff.1 hhead] at hc
      cases Option.some.inj hc
      decide
    | some e =>
      have hk := hkeys e (List.mem_of_head? hhead)
      rw [head?_renderList hhead hk] at hc
      rw [opensNumber_of_isKeyChar (hk.2 c (List.mem_of_head? hc))]
      exact Attributes.noLeadingDigit_of_nested hm e hhead c hc
  unfold readValue Reader.head?
  rw [if_neg hquote, if_neg (by simpa [Option.any_eq_true] using hopens)]
  cases hlone : m.loneFlag? with
  | some b =>
    obtain ⟨p', hp⟩ := readFlag?_lone hlone p rest
    refine ⟨p', ?_⟩
    rw [hp, AttributeValue.reread, hlone]
  | none =>
    obtain ⟨p', hp⟩ := hnested m p rfl
    refine ⟨p', ?_⟩
    rw [readFlag?_other hkeys hlone, AttributeValue.reread, hlone]
    dsimp only
    rw [hp]
    rfl

/-- A value between parentheses is the argument of a key. -/
theorem readArgument_of_readValue
    {readNested : Reader → Except AttributeFault (Attributes × Reader)} {value : AttributeValue}
    {p p' : Position} {inner rest : List Char} (hblank : ∀ c ∈ inner.head?, isBlank c = false)
    (h : readValue readNested ⟨p.advance '(', inner⟩ = .ok (value, ⟨p', ')' :: rest⟩)) :
    readArgument readNested ⟨p, '(' :: inner⟩ = .ok (value, ⟨p'.advance ')', rest⟩) := by
  have hopen : Reader.head? ⟨p, '(' :: inner⟩ = some '(' := rfl
  unfold readArgument
  rw [if_pos hopen]
  show (readValue readNested (Reader.skipBlanks ⟨p.advance '(', inner⟩) >>= _) = _
  rw [skipBlanks_of_head hblank, h, ok_bind]
  dsimp only
  rw [skipBlanks_close]
  rfl

section Arguments

variable {readNested : Reader → Except AttributeFault (Attributes × Reader)} {rest : List Char}

/-- A set flag is a key alone, a cleared one is spelled out. -/
theorem readArgument_flag (b : Bool) (p : Position) (hrest : Stops rest) :
    ∃ p', readArgument readNested ⟨p, (AttributeValue.flag b).renderChars ++ rest⟩ =
      .ok (.flag b, ⟨p', rest⟩) := by
  cases b with
  | true =>
    refine ⟨p, ?_⟩
    have hopen : rest.head? ≠ some '(' := fun hc => by
      rcases hrest _ hc with h | h <;> exact absurd h (by decide)
    unfold readArgument Reader.head?
    rw [AttributeValue.renderChars, List.nil_append, if_neg hopen]
  | false =>
    have hclose : isWordChar ')' = false ∧ isBlank ')' = false := by decide
    have hflag : readFlag? ⟨p.advance '(', "false".toList ++ ')' :: rest⟩ =
        some (false, ⟨(p.advance '(').past "false".toList, ')' :: rest⟩) := by
      rw [readFlag?_word (by decide) (by simp [hclose]) (by simp [hclose])]
      rfl
    refine ⟨((p.advance '(').past "false".toList).advance ')', ?_⟩
    show readArgument readNested ⟨p, '(' :: ("false".toList ++ ')' :: rest)⟩ = _
    refine readArgument_of_readValue (by simp; decide) ?_
    unfold readValue
    rw [if_neg (by simp [Reader.head?]), if_neg (by simp [Reader.head?]; decide), hflag]

theorem readArgument_text (s : String) (p : Position) :
    ∃ p', readArgument readNested ⟨p, (AttributeValue.text s).renderChars ++ rest⟩ =
      .ok ((AttributeValue.text s).reread, ⟨p', rest⟩) := by
  obtain ⟨p', hp⟩ := readText_escapeQuoted s.toList (')' :: rest)
    ((p.advance '(').advance '\x22')
  refine ⟨p'.advance ')', ?_⟩
  rw [AttributeValue.renderChars]
  simp only [List.cons_append, List.append_assoc, List.nil_append]
  refine readArgument_of_readValue (by simp; decide) ?_
  show Except.map _ (readText ((p.advance '(').advance '\x22')
    (escapeQuoted s.toList ++ '\x22' :: ')' :: rest)) = _
  rw [hp]
  simp [Except.map, AttributeValue.reread]

/-- A number opens as no other value does. -/
theorem opens_plainChars {x : Number} (hx : x.isFinite = true) : ∃ c cs, x.plainChars = c :: cs ∧
    opensNumber c = true ∧ isBlank c = false ∧ c ≠ '\x22' := by
  obtain ⟨c, cs, hcs, hc⟩ := Number.head_plainChars hx
  refine ⟨c, cs, hcs, ?_⟩
  rcases hc with hc | rfl
  · refine ⟨by simp [opensNumber, hc], ?_, fun h => ?_⟩
    · exact Text.isBlank_eq_false_of_isAlphanumeric (Text.isAlphanumeric_of_isAsciiDigit hc)
    · rw [h] at hc
      exact absurd hc (by decide)
  · decide

theorem readArgument_number {x : Number} (hx : x.isFinite = true) (p : Position) :
    ∃ p', readArgument readNested ⟨p, (AttributeValue.number x).renderChars ++ rest⟩ =
      .ok (.number x, ⟨p', rest⟩) := by
  obtain ⟨p', hp⟩ := readNumeric_plainChars hx (p.advance '(') rest
  obtain ⟨c, cs, hcs, hopens, hblank, hquote⟩ := opens_plainChars hx
  refine ⟨p'.advance ')', ?_⟩
  rw [AttributeValue.renderChars]
  simp only [List.cons_append, List.append_assoc, List.nil_append]
  refine readArgument_of_readValue (by simpa [hcs] using hblank) ?_
  unfold readValue
  rw [if_neg (by simp [Reader.head?, hcs, hquote]),
    if_pos (by simp [Reader.head?, hcs, hopens]), hp]

theorem readArgument_nested {m : Attributes} (hm : (AttributeValue.nested m).Readable)
    (p : Position) (hnested : ReadsNested readNested (.nested m) rest) :
    ∃ p', readArgument readNested ⟨p, (AttributeValue.nested m).renderChars ++ rest⟩ =
      .ok ((AttributeValue.nested m).reread, ⟨p', rest⟩) := by
  obtain ⟨p', hp⟩ := readValue_nested hm (p.advance '(') hnested
  refine ⟨p'.advance ')', ?_⟩
  rw [AttributeValue.renderChars]
  simp only [List.cons_append, List.append_assoc, List.nil_append]
  refine readArgument_of_readValue (fun c hc => ?_) hp
  rcases head_renderList (Attributes.readable_of_nested hm).isKey hc with h | h
  · exact isBlank_eq_false_of_isKeyChar h
  · cases Option.some.inj h
    decide

/-- What stands behind a key is read as its value. -/
theorem readArgument_renderChars {value : AttributeValue} (hv : value.Readable) (p : Position)
    (hrest : Stops rest) (hnested : ReadsNested readNested value rest) :
    ∃ p', readArgument readNested ⟨p, value.renderChars ++ rest⟩ =
      .ok (value.reread, ⟨p', rest⟩) := by
  cases hv with
  | flag b => exact readArgument_flag b p hrest
  | text s => exact readArgument_text s p
  | number hx => exact readArgument_number hx p
  | nested isKey nodup values start =>
    exact readArgument_nested (.nested isKey nodup values start) p hnested

end Arguments

/-! ## Reading a list -/

/-- What reading a list does when a key and its value have been read: it ends or goes on. -/
theorem readList_entry {fuel : Nat} {nested : Bool} {acc : Attributes} {r r₁ r₂ : Reader}
    {key : String} {value : AttributeValue} {c : Char} (hhead : r.skipBlanks.head? = some c)
    (hc : c ≠ ')') (hkey : readKey r.skipBlanks = .ok (key, r₁))
    (hvalue : readArgument (readList fuel true []) r₁.skipBlanks = .ok (value, r₂))
    (hnew : acc.contains key = false) :
    readList (fuel + 1) nested acc r =
      match r₂.skipBlanks.head? with
      | some ',' => readList fuel nested (acc.insert key value) r₂.skipBlanks.next
      | some ')' =>
        if nested then .ok (acc.insert key value, r₂.skipBlanks)
        else r₂.skipBlanks.fail .unbalancedParentheses
      | none =>
        if nested then r₂.skipBlanks.fail .unbalancedParentheses
        else .ok (acc.insert key value, r₂.skipBlanks)
      | some d => r₂.skipBlanks.fail (.unexpected d) := by
  have hread := readList.eq_2 nested acc r fuel
  simp only [hhead, hkey, ok_bind, hvalue, hnew, Bool.false_eq_true, if_false] at hread
  exact hread

theorem EndsList.stops {nested : Bool} {rest : List Char} (h : EndsList nested rest) :
    Stops rest := by
  intro c hc
  cases nested
  · rw [show rest = [] from h] at hc
    cases hc
  · rw [show rest.head? = some ')' from h] at hc
    exact .inr (Option.some.inj hc).symm

/-- What follows a key is none of its characters and no blank. -/
theorem outside_behind_key (value : AttributeValue) {rest : List Char} (hrest : Stops rest) :
    ∀ d ∈ (value.renderChars ++ rest).head?, isKeyChar d = false ∧ isBlank d = false := by
  intro d hd
  rcases renderChars_cases value with ⟨-, h⟩ | ⟨-, inner, h⟩
  · rw [h, List.nil_append] at hd
    rcases hrest d hd with rfl | rfl <;> decide
  · rw [h] at hd
    cases Option.some.inj hd
    decide

/-- A key with its value is read as the next entry of a list. -/
theorem readList_renderChars {fuel : Nat} {acc : Attributes} {r : Reader} {p : Position}
    {key : String} {value : AttributeValue} {rest : List Char} (nested : Bool) (hk : IsKey key)
    (hv : value.Readable) (hacc : acc.contains key = false) (hrest : Stops rest)
    (hr : r.skipBlanks = ⟨p, key.toList ++ (value.renderChars ++ rest)⟩)
    (hnested : ReadsNested (readList fuel true []) value rest) :
    ∃ q, readList (fuel + 1) nested acc r =
      match rest.head? with
      | some ',' => readList fuel nested (acc ++ [(key, value.reread)]) (Reader.mk q rest).next
      | some ')' =>
        if nested then .ok (acc ++ [(key, value.reread)], ⟨q, rest⟩)
        else (Reader.mk q rest).fail .unbalancedParentheses
      | none =>
        if nested then (Reader.mk q rest).fail .unbalancedParentheses
        else .ok (acc ++ [(key, value.reread)], ⟨q, rest⟩)
      | some d => (Reader.mk q rest).fail (.unexpected d) := by
  obtain ⟨c, cs, hcs⟩ := List.exists_cons_of_ne_nil hk.1
  have hhead : r.skipBlanks.head? = some c := by rw [hr, hcs]; rfl
  have hc : c ≠ ')' := by
    rintro rfl
    exact absurd (hk.2 ')' (hcs ▸ List.mem_cons_self)) (by decide)
  have hbehind := outside_behind_key value hrest
  have hkey : readKey r.skipBlanks = .ok (key, ⟨p.past key.toList, value.renderChars ++ rest⟩) := by
    rw [hr]
    exact readKey_append hk fun d hd => (hbehind d hd).1
  obtain ⟨q, hvalue⟩ := readArgument_renderChars hv (p.past key.toList) hrest hnested
  rw [← skipBlanks_of_head fun d hd => (hbehind d hd).2] at hvalue
  have hstop : Reader.skipBlanks ⟨q, rest⟩ = ⟨q, rest⟩ :=
    skipBlanks_of_head (hrest.outside (by decide) (by decide))
  refine ⟨q, ?_⟩
  rw [readList_entry hhead hc hkey hvalue hacc, hstop, Attributes.insert_of_not_contains hacc]
  rfl

/-- The text of a list is read as the list with its lone flag words read as flags. -/
theorem readList_renderList {fuel : Nat} {nested : Bool} {acc m : Attributes} {r : Reader}
    {p : Position} {rest : List Char} (hm : m.Readable) (hnew : ∀ key ∈ m.keys, key ∉ acc.keys)
    (hr : r.skipBlanks = ⟨p, AttributeValue.renderList m ++ rest⟩) (hend : EndsList nested rest)
    (hfuel : (AttributeValue.renderList m ++ rest).length < fuel) :
    ∃ p', readList fuel nested acc r = .ok (acc ++ m.reread, ⟨p', rest⟩) := by
  induction fuel generalizing nested acc m r p rest with
  | zero => omega
  | succ fuel ih =>
    cases m with
    | nil =>
      refine ⟨p, ?_⟩
      rw [readList]
      simp only [hr, Reader.head?, AttributeValue.renderList, List.nil_append]
      unfold EndsList at hend
      cases nested
      · simp_all [Attributes.reread, AttributeValue.rereadList]
      · simp_all [Attributes.reread, AttributeValue.rereadList]
    | cons e m =>
      obtain ⟨key, value⟩ := e
      have hv : value.Readable := hm.values _ List.mem_cons_self
      have hlen : key.toList.length + value.renderChars.length +
          (AttributeValue.renderRest m ++ rest).length ≤ fuel := by
        simp only [AttributeValue.renderList, List.length_append] at hfuel ⊢
        omega
      have hacc : acc.contains key = false :=
        Attributes.contains_eq_false_iff.2 (hnew key (by simp [Attributes.keys]))
      have hnested : ReadsNested (readList fuel true []) value
          (AttributeValue.renderRest m ++ rest) := by
        rintro n q rfl
        have hn := Attributes.readable_of_nested hv
        have hclose : EndsList true (')' :: (AttributeValue.renderRest m ++ rest)) := rfl
        exact ih hn (by simp [Attributes.keys]) (skipBlanks_renderList hn.isKey hclose.stops)
          hclose (by simp [AttributeValue.renderChars] at hlen ⊢; omega)
      rw [AttributeValue.renderList, List.append_assoc, List.append_assoc] at hr
      obtain ⟨q, hread⟩ := readList_renderChars nested (hm.isKey _ List.mem_cons_self) hv hacc
        (stops_renderRest m hend.stops) hr hnested
      rw [hread]
      cases m with
      | nil =>
        refine ⟨q, ?_⟩
        unfold EndsList at hend
        cases nested
        · simp_all [Attributes.reread, AttributeValue.rereadList, AttributeValue.renderRest]
        · simp_all [Attributes.reread, AttributeValue.rereadList, AttributeValue.renderRest]
      | cons e m =>
        have hnew' : ∀ k ∈ Attributes.keys (e :: m),
            k ∉ Attributes.keys (acc ++ [(key, value.reread)]) := by
          intro k hk' hk''
          simp only [Attributes.keys, List.map_append, List.mem_append, List.map_cons, List.map_nil,
            List.mem_singleton] at hk''
          rcases hk'' with h | rfl
          · exact hnew k (List.mem_cons_of_mem _ hk') h
          · exact (List.nodup_cons.1 hm.nodup).1 hk'
        have hspace : Reader.skipBlanks ⟨q.advance ',', ' ' :: (AttributeValue.renderList (e :: m)
            ++ rest)⟩ =
              ⟨(q.advance ',').advance ' ', AttributeValue.renderList (e :: m) ++ rest⟩ := by
          rw [skipBlanks_space, skipBlanks_renderList hm.tail.isKey hend.stops]
        have hshort : (AttributeValue.renderList (e :: m) ++ rest).length < fuel := by
          rw [renderRest_cons] at hlen
          simp only [List.cons_append, List.length_cons] at hlen
          omega
        obtain ⟨p', hp⟩ := ih hm.tail hnew' hspace hend hshort
        refine ⟨p', ?_⟩
        rw [List.append_assoc] at hp
        exact hp

end Attribute

namespace Attributes

/-- The text of readable attributes is read with its lone flag words as flags. -/
theorem parse_render {m : Attributes} (hm : m.Readable) (origin : Position) :
    parse m.render origin = .ok m.reread := by
  have hend : EndsList false [] := rfl
  have hread : ∃ p', readList ((AttributeValue.renderList m ++ []).length + 1) false []
      ⟨origin, AttributeValue.renderList m ++ []⟩ = .ok ([] ++ m.reread, ⟨p', []⟩) :=
    readList_renderList hm (by simp [keys]) (skipBlanks_renderList hm.isKey hend.stops) hend
      (Nat.lt_succ_self _)
  obtain ⟨p', hp⟩ := hread
  rw [List.append_nil] at hp
  unfold parse parseAt render
  rw [String.toList_ofList, hp]
  rfl

/-- **Attributes that were read from a text are always read from their own text, as themselves if
and only if no list nested in them is the bare word of a flag alone.** -/
theorem parse_render_iff {text : String} {origin : Position} {m : Attributes}
    (h : parse text origin = .ok m) (place : Position) :
    parse m.render place = .ok m.reread ∧
      (parse m.render place = .ok m ↔
        ∀ n, NestedIn n m → n ≠ [("true", .flag true)] ∧ n ≠ [("false", .flag true)]) := by
  have hread := parse_render (parse_readable h) place
  refine ⟨hread, ?_⟩
  rw [hread, Except.ok.injEq, reread_eq_self_iff]
  simp only [loneFlag?_eq_none_iff]

/-- A range, a text with a comma and a list that starts with a flag's word are read back. -/
theorem parse_render_mixed :
    parse "A(0|10), B(\"x, y\"), C(true, d)" .start =
        .ok [("A", range ⟨0⟩ ⟨0x4024000000000000⟩ .one), ("B", .text "x, y"),
          ("C", .nested [("true", .flag true), ("d", .flag true)])] ∧
      parse (render [("A", range ⟨0⟩ ⟨0x4024000000000000⟩ .one), ("B", .text "x, y"),
          ("C", .nested [("true", .flag true), ("d", .flag true)])]) .start =
        .ok [("A", range ⟨0⟩ ⟨0x4024000000000000⟩ .one), ("B", .text "x, y"),
          ("C", .nested [("true", .flag true), ("d", .flag true)])] := by
  have h : parse "A(0|10), B(\"x, y\"), C(true, d)" .start =
      .ok [("A", range ⟨0⟩ ⟨0x4024000000000000⟩ .one), ("B", .text "x, y"),
        ("C", .nested [("true", .flag true), ("d", .flag true)])] := by
    rfl
  refine ⟨h, (parse_render_iff h .start).2.2 ?_⟩
  simp [nestedIn_cons_iff, not_nestedIn_nil, range]

/-- A comma behind a flag's word makes it a list, which the text of the list does not keep. -/
theorem parse_render_lone_flag :
    parse "A(true,)" .start = .ok [("A", .nested [("true", .flag true)])] ∧
      parse (render [("A", .nested [("true", .flag true)])]) .start = .ok [("A", .flag true)] ∧
      ¬∀ text origin m, parse text origin = .ok m → parse m.render origin = .ok m := by
  have hread : parse "A(true,)" .start = .ok [("A", .nested [("true", .flag true)])] := by rfl
  have hagain : parse (render [("A", .nested [("true", .flag true)])]) .start =
      .ok [("A", .flag true)] := by rfl
  refine ⟨hread, hagain, fun h => ?_⟩
  have := (h _ _ _ hread).symm.trans hagain
  simp at this

end Attributes

end HeaderReflection
