import HeaderReflection.Container.Build
import HeaderReflection.Proofs.Attribute.Places
import HeaderReflection.Proofs.Markup.Arguments

/-!
# Places of attribute faults in a file

The attributes of a marker are read apart from their file. The places of their faults are those of
the file all the same: the excerpt starts behind the opening parenthesis, which is one character
wide, and counting on in the excerpt is counting on in the file.

* `exists_reaches_of_mem`: each event is that of a look that scanning comes to.
* `exists_takes_of_event`: an event with attributes is that of a marker and its argument list.
* `attribute_fault_place`: a fault in attributes is reported at its place in the file.
-/

namespace HeaderReflection

open Text (Position)

namespace Markup

variable {v : Vocabulary} {ts us rest inside tail : List Token} {t marker opening close : Token}
  {e : Event} {attributes : Excerpt} {earlier : List (Except ScanFault Event)}

/-! ## The marker of an event -/

/-- Each event is that of a look that scanning comes to. -/
theorem exists_reaches_of_mem {outcome : Except ScanFault Event} (h : Reaches v ts earlier us)
    (hmem : outcome ∈ events v us) :
    ∃ before t rest, Reaches v ts before (t :: rest) ∧ (step v t rest).event = some outcome := by
  fun_induction events v us generalizing earlier with
  | case1 => cases hmem
  | case2 t rest s =>
    rename_i ih
    rcases List.mem_append.1 hmem with hhere | hbehind
    · exact ⟨earlier, t, rest, h, Option.mem_toList.1 hhere⟩
    · exact ih (.look h) hbehind

/-- Only a marker word with an opening parenthesis yields an event with attributes. -/
theorem marker_of_event (h : (step v t rest).event = some (.ok e))
    (hattributes : e.attributes? = some attributes) :
    ∃ kind opening more, rest = opening :: more ∧ t.kind = .identifier ∧ t.text ≠ "namespace" ∧
      v.classify t.text = some kind ∧ opening.isPunctuation "(" = true ∧
      (markerStep v kind t.position opening more).event = some (.ok e) := by
  have hnone : ∀ {e' : Event} {us : List Token}, e'.attributes? = none →
      (Step.found e' us).event ≠ some (.ok e) := by
    rintro e' us hbare ⟨⟩
    rw [hbare] at hattributes
    cases hattributes
  unfold step at h
  split at h
  · rename_i hkind
    unfold wordStep at h
    split at h
    · exfalso
      unfold namespaceStep at h
      split at h
      · cases h
      · split at h
        · split at h <;> exact hnone rfl h
        · cases h
    · rename_i hnamespace
      split at h
      · rename_i kind hword
        split at h
        · rename_i opening more
          split at h
          · rename_i hopen
            exact ⟨kind, opening, more, rfl, hkind, hnamespace, hword, hopen, h⟩
          · cases h
        · cases h
      · exfalso
        split at h
        · split at h
          · exact hnone rfl h
          · cases h
        · cases h
  · exfalso
    split at h
    · exact hnone rfl h
    · split at h
      · exact hnone rfl h
      · cases h

/-- An event with attributes is that of a marker, and the attributes are what its parentheses
enclose. -/
theorem exists_takes_of_event {source : String} (hmem : .ok e ∈ scan v source)
    (hattributes : e.attributes? = some attributes) :
    ∃ earlier marker opening inside close tail after,
      Reaches v (Token.lex source) earlier (marker :: opening :: (inside ++ close :: tail)) ∧
      opening.isPunctuation "(" = true ∧
      Encloses v 0 (inside ++ close :: tail) inside close tail ∧
      Takes v source marker opening (inside ++ close :: tail) close tail attributes (.ok e)
        after := by
  obtain ⟨earlier, marker, rest, hreach, hstep⟩ := exists_reaches_of_mem .start hmem
  obtain ⟨kind, opening, more, rfl, hkind, hnamespace, hword, hopen, hmarker⟩ :=
    marker_of_event hstep hattributes
  have hcut : ∃ inside close tail, Encloses v 0 more inside close tail := by
    cases hsplit : splitArguments v 0 opening.position more with
    | ok cut => exact ⟨_, _, _, (splitArguments_eq_ok_iff _).1 hsplit⟩
    | error cut =>
      rw [markerStep, hsplit] at hmarker
      cases hmarker
  obtain ⟨inside, close, tail, hencloses⟩ := hcut
  obtain ⟨read, hlex⟩ := hreach.suffix
  obtain ⟨attributes', outcome, after, htakes⟩ :=
    exists_takes hlex.symm hkind hword hnamespace hopen hencloses
  -- The marker yields one event only.
  have hevents := events_marker hkind hnamespace hword hopen more
  rw [hmarker, htakes.events] at hevents
  obtain rfl : outcome = .ok e := (List.cons.inj hevents).1
  obtain rfl : attributes' = attributes := by
    rcases htakes.carries with ⟨e', ⟨⟩, hsame⟩ | ⟨f, ⟨⟩, -⟩
    exact Option.some.inj (hsame.symm.trans hattributes)
  obtain rfl := hencloses.split
  exact ⟨earlier, marker, opening, inside, close, tail, after, hreach, hopen, hencloses, htakes⟩

/-! ## Places in the file -/

/-- A place in a file behind the opening parenthesis of an argument list, up to the closing one. It
is that of a character of the file, by the lines and columns of the file as well as by those that
are counted on in the attributes. -/
def PointsInto (source : String) (opening close : Token) (attributes : Excerpt)
    (place : Position) : Prop :=
  ∃ before behind : String, source = before ++ behind ∧ behind ≠ "" ∧
    opening.stop ≤ before.utf8ByteSize ∧ before.utf8ByteSize ≤ close.offset ∧
    place = ⟨before.toList.count '\n' + 1, (Token.lastLine before.toList).length + 1⟩ ∧
    ∃ read unread : String, attributes.text = read ++ unread ∧
      before.utf8ByteSize = opening.stop + read.utf8ByteSize ∧
      place = attributes.position.counted read.toList

/-- The place behind an opening parenthesis. -/
theorem past_opening {source : String} {read : List Token}
    (hlex : Token.lex source = read ++ opening :: rest)
    (hopen : opening.isPunctuation "(" = true) :
    ∃ behind : String, source = Token.spell (read ++ [opening]) ++ behind ∧
      Position.start.past (Token.spell (read ++ [opening])).toList =
        ⟨opening.position.line, opening.position.column + 1⟩ := by
  obtain ⟨gap, after, hsource, -, -, -, hplace⟩ := Token.exists_gap hlex
  obtain ⟨rfl, -, ⟨behind, rfl⟩, -, hposition⟩ := hplace opening rfl
  have hmark : opening.text = "(" := (Token.isPunctuation_eq_true_iff.1 hopen).2
  have hspell : Token.spell (read ++ [opening]) = Token.spell read ++ opening.gap ++ "(" := by
    rw [Token.spell_append, Token.spell_singleton, hmark, String.append_assoc]
  refine ⟨behind, by rw [hspell, hsource, hmark, ← String.append_assoc], ?_⟩
  rw [hspell, String.toList_append, Position.past_append, ← hposition]
  rfl

theorem offset_lt_utf8ByteSize {source : String} {read : List Token}
    (hlex : Token.lex source = read ++ t :: rest) : t.offset < source.utf8ByteSize := by
  obtain ⟨gap, after, hsource, -, -, -, hplace⟩ := Token.exists_gap hlex
  obtain ⟨-, htext, ⟨behind, rfl⟩, hoffset, -⟩ := hplace t rfl
  have hpos : t.text.utf8ByteSize ≠ 0 :=
    fun hzero => htext (String.utf8ByteSize_eq_zero_iff.1 hzero)
  rw [hoffset, hsource]
  simp only [String.utf8ByteSize_append]
  omega

theorem exists_of_parseAttributes {path : String} {fault : Fault}
    (h : parseAttributes path attributes = .error fault) :
    ∃ f, Attributes.parse attributes.text attributes.position = .error f ∧
      fault = f.inFile path := by
  unfold parseAttributes at h
  cases hparse : Attributes.parse attributes.text attributes.position with
  | ok parsed =>
    rw [hparse] at h
    cases h
  | error f =>
    rw [hparse] at h
    exact ⟨f, rfl, (Except.error.inj h).symm⟩

/-- The place behind a part of the attributes is that of the character there. -/
theorem Takes.pointsInto {source read unread : String} {outcome : Except ScanFault Event}
    {after : List Token} {place : Position}
    (h : Takes v source marker opening (inside ++ close :: tail) close tail attributes outcome
      after)
    (hreach : Reaches v (Token.lex source) earlier (marker :: opening :: (inside ++ close :: tail)))
    (hopen : opening.isPunctuation "(" = true) (htext : attributes.text = read ++ unread)
    (hplace : place = attributes.position.past read.toList) :
    PointsInto source opening close attributes place := by
  obtain ⟨first, hlex⟩ := hreach.suffix
  have hopening :
      Token.lex source = (first ++ [marker]) ++ opening :: (inside ++ close :: tail) := by
    rw [← hlex, List.append_cons]
  have hclosing : Token.lex source = (first ++ marker :: opening :: inside) ++ close :: tail := by
    rw [← hlex, List.append_assoc, List.cons_append, List.cons_append]
  obtain ⟨rest, hspell, hpast⟩ := past_opening hopening hopen
  obtain ⟨front, behind, hsource, hfront, hclose⟩ := h.text
  obtain rfl : front = Token.spell (first ++ [marker] ++ [opening]) := by
    refine Text.eq_of_utf8ByteSize_eq (b := attributes.text ++ behind) (d := rest) ?_ ?_
    · rw [← hspell, hsource, String.append_assoc]
    · rw [hfront, Token.stop_eq hopening]
  have hend := offset_lt_utf8ByteSize hclosing
  rw [htext, ← String.append_assoc] at hsource hclose
  refine ⟨_, unread ++ behind, by rw [hsource, String.append_assoc], ?_, ?_, ?_, ?_,
    read, unread, htext, ?_, by rw [hplace, Position.past_eq_counted]⟩
  · intro hnone
    rw [hsource, String.append_assoc, hnone, String.append_empty] at hend
    rw [String.utf8ByteSize_append] at hclose
    omega
  · rw [← hfront, String.utf8ByteSize_append]
    exact Nat.le_add_right ..
  · rw [← hclose, String.utf8ByteSize_append (t := unread)]
    exact Nat.le_add_right ..
  · rw [hplace, h.position, ← hpast, ← Position.past_append, ← String.toList_append,
      Position.past_start]
  · rw [String.utf8ByteSize_append, hfront]

/-- **Faults in attributes are reported at their places in the file.** If the attributes of an event
cannot be read, the fault is reported at the place of a character of the file behind the opening
parenthesis of the event's marker, up to the closing one. -/
theorem attribute_fault_place {source path : String} {fault : Fault}
    (hmem : .ok e ∈ scan v source) (hattributes : e.attributes? = some attributes)
    (hfault : parseAttributes path attributes = .error fault) :
    ∃ earlier marker opening inside close tail after place message,
      Reaches v (Token.lex source) earlier (marker :: opening :: (inside ++ close :: tail)) ∧
      opening.isPunctuation "(" = true ∧
      Encloses v 0 (inside ++ close :: tail) inside close tail ∧
      Takes v source marker opening (inside ++ close :: tail) close tail attributes (.ok e) after ∧
      fault = .malformedAttribute path place message ∧
      PointsInto source opening close attributes place := by
  obtain ⟨earlier, marker, opening, inside, close, tail, after, hreach, hopen, hencloses, htakes⟩ :=
    exists_takes_of_event hmem hattributes
  obtain ⟨f, hparse, rfl⟩ := exists_of_parseAttributes hfault
  obtain ⟨read, unread, htext, hplace⟩ := Attributes.exists_read_of_parse hparse
  refine ⟨earlier, marker, opening, inside, close, tail, after, f.position, f.cause.message, hreach,
    hopen, hencloses, htakes, rfl, ?_⟩
  exact htakes.pointsInto hreach hopen htext hplace

/-- In the second line of an argument list the columns are those of that line. -/
theorem attribute_fault_place_second_line :
    let attributes : Excerpt := ⟨"A,\n  B(1|x)", ⟨1, 10⟩⟩
    let e : Event := .property ⟨1, 1⟩ attributes ⟨"int x", ⟨2, 11⟩⟩
    let source := "PROPERTY(A,\n  B(1|x)) int x;"
    let fault : Fault := .malformedAttribute "f.h" ⟨2, 7⟩ "invalid numeric literal 'x'"
    (.ok e ∈ scan {} source ∧ parseAttributes "f.h" attributes = .error fault) ∧
    ∃ earlier marker opening inside close tail after place message,
      Reaches {} (Token.lex source) earlier (marker :: opening :: (inside ++ close :: tail)) ∧
      opening.isPunctuation "(" = true ∧
      Encloses {} 0 (inside ++ close :: tail) inside close tail ∧
      Takes {} source marker opening (inside ++ close :: tail) close tail attributes (.ok e)
        after ∧
      fault = .malformedAttribute "f.h" place message ∧
      PointsInto source opening close attributes place := by
  have hfault : parseAttributes "f.h" ⟨"A,\n  B(1|x)", ⟨1, 10⟩⟩ =
      .error (.malformedAttribute "f.h" ⟨2, 7⟩ "invalid numeric literal 'x'") := by
    with_unfolding_all rfl
  intro attributes e source fault
  have hmem : .ok e ∈ scan {} source := by
    have hevents : (scan {} source).filterMap Except.toOption = [e] := by decide +kernel
    obtain ⟨outcome, houtcome, hok⟩ : ∃ outcome ∈ scan {} source, outcome.toOption = some e := by
      rw [← List.mem_filterMap, hevents]
      exact List.mem_singleton_self e
    cases outcome with
    | error f => cases hok
    | ok e' => exact Option.some.inj hok ▸ houtcome
  exact ⟨⟨hmem, hfault⟩, attribute_fault_place hmem rfl hfault⟩

end Markup

end HeaderReflection
