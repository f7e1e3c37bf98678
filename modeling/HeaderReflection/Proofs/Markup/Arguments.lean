import HeaderReflection.Proofs.Markup.Lines
import HeaderReflection.Proofs.Markup.Looks
import HeaderReflection.Proofs.Token.Slices

/-!
# Argument lists of markers

A marker's argument list ends at the partner of its opening parenthesis. A list that a semicolon, a
brace or a marker word interrupts before, or the end of the text, is a fault, and the scanner goes
on at what interrupts it.

* `splitArguments_eq_ok_iff`: what is cut out as an argument list.
* `cutShort_of_splitArguments`: where a list that is none ends.
* `Reaches.events`: the events behind what scanning has read are those of a scan that starts there.
* `marker_arguments`: what scanning makes of a marker, and where it goes on.
-/

namespace HeaderReflection

open Text (Position)

namespace Vocabulary

/-- A word announces something if it is in one of the lists. -/
theorem isSome_classify_iff (v : Vocabulary) (word : String) :
    (v.classify word).isSome = true ↔ word ∈ v.words := by
  simp only [classify, words, List.contains_eq_mem, decide_eq_true_eq, List.mem_append, or_assoc]
  split_ifs <;> simp [*]

end Vocabulary

/-! ## Parentheses -/

namespace Token

variable {t : Token} {depth : Nat}

theorem isPunctuation_eq_true_iff {p : String} :
    t.isPunctuation p = true ↔ t.kind = .punctuation ∧ t.text = p := by
  rw [isPunctuation, Bool.and_eq_true, decide_eq_true_eq, decide_eq_true_eq]

/-- The parenthesis that a token is. -/
def paren? (t : Token) : Option Brace :=
  if t.isPunctuation "(" then some .opening
  else if t.isPunctuation ")" then some .closing
  else none

/-- The parentheses of tokens. -/
def parens (ts : List Token) : List Brace :=
  ts.filterMap paren?

theorem parens_cons_of_closing (h : t.isPunctuation ")" = true) (ts : List Token) :
    parens (t :: ts) = .closing :: parens ts := by
  have hopen : t.isPunctuation "(" = false := by
    rw [isPunctuation_eq_true_iff] at h
    simp [isPunctuation, h.2]
  simp [parens, paren?, h, hopen]

/-- The depth behind tokens from the one behind the first of them, unless that closes nothing. -/
theorem depthAfter_parens_cons (h : ¬(t.isPunctuation ")" && depth = 0) = true) (ts : List Token) :
    Brace.depthAfter depth (parens (t :: ts)) =
      Brace.depthAfter (if t.isPunctuation "(" then depth + 1
        else if t.isPunctuation ")" then depth - 1 else depth) (parens ts) := by
  by_cases hopen : t.isPunctuation "(" = true
  · simp [parens, paren?, hopen]
  · by_cases hclose : t.isPunctuation ")" = true
    · cases depth with
      | zero => simp [hclose] at h
      | succ depth => simp [parens_cons_of_closing, hclose, hopen]
    · simp [parens, paren?, hopen, hclose]

end Token

/-- The attributes that an event of a marker carries. -/
def Event.attributes? : Event → Option Excerpt
  | .container _ attributes .. | .property _ attributes _ | .function _ attributes _
  | .generatedBody _ attributes => some attributes
  | _ => none

namespace Markup

variable {v : Vocabulary} {depth : Nat} {last place : Position} {t close marker opening : Token}
  {ts us inside tail : List Token}

/-! ## Cutting out an argument list -/

/-- The token interrupts an argument list: a semicolon, a brace or a marker word. -/
def Interrupts (v : Vocabulary) (t : Token) : Prop :=
  (t.kind = .punctuation ∧ t.text ∈ [";", "\x7b", "\x7d"]) ∨
    (t.kind = .identifier ∧ t.text ∈ v.words)

theorem breaksArguments_iff : breaksArguments v t = true ↔ Interrupts v t := by
  simp only [breaksArguments, Interrupts, Bool.or_eq_true, Token.isPunctuation_eq_true_iff,
    Bool.and_eq_true, decide_eq_true_eq, Vocabulary.isSome_classify_iff, List.mem_cons,
    List.not_mem_nil, or_false, and_or_left, or_assoc]

theorem not_interrupts_of_closing (h : t.isPunctuation ")" = true) : ¬Interrupts v t := by
  obtain ⟨hkind, htext⟩ := Token.isPunctuation_eq_true_iff.1 h
  simp [Interrupts, hkind, htext]

/-- Behind an opening parenthesis in which `depth` more are open stand the tokens `inside`, then
its partner, then the others, and nothing interrupts those inside. -/
structure Encloses (v : Vocabulary) (depth : Nat) (ts inside : List Token) (close : Token)
    (tail : List Token) : Prop where
  split : ts = inside ++ close :: tail
  closing : close.isPunctuation ")" = true
  nested : Brace.depthAfter depth (Token.parens inside) = some 0
  calm : ∀ t ∈ inside, ¬Interrupts v t

/-- What is cut out as an argument list is what the parentheses enclose. -/
theorem splitArguments_eq_ok_iff (last : Position) :
    splitArguments v depth last ts = .ok (inside, close, tail) ↔
      Encloses v depth ts inside close tail := by
  induction ts generalizing depth last inside with
  | nil =>
    refine iff_of_false (by simp [splitArguments]) fun h => ?_
    simpa using h.split
  | cons t rest ih =>
    rw [splitArguments]
    split
    · rename_i hbreak
      refine iff_of_false (by simp) fun h => ?_
      have hinterrupts := breaksArguments_iff.1 hbreak
      rcases List.cons_eq_append_iff.1 h.split with ⟨-, hclose⟩ | ⟨more, hinside, -⟩
      · exact not_interrupts_of_closing ((List.cons.inj hclose).1 ▸ h.closing) hinterrupts
      · exact h.calm t (hinside ▸ List.mem_cons_self) hinterrupts
    · rename_i hbreak
      split
      · rename_i hend
        rw [Bool.and_eq_true, decide_eq_true_eq] at hend
        obtain ⟨hclosing, rfl⟩ := hend
        constructor
        · intro h
          simp only [Except.ok.injEq, Prod.mk.injEq] at h
          obtain ⟨rfl, rfl, rfl⟩ := h
          exact ⟨rfl, hclosing, rfl, by simp⟩
        · intro h
          rcases List.cons_eq_append_iff.1 h.split with ⟨rfl, hclose⟩ | ⟨more, rfl, -⟩
          · obtain ⟨rfl, rfl⟩ := List.cons.inj hclose
            rfl
          · have hnested := h.nested
            rw [Token.parens_cons_of_closing hclosing] at hnested
            cases hnested
      · rename_i hend
        rw [map_eq_ok_iff]
        constructor
        · rintro ⟨⟨more, c, tl⟩, hmore, hinside⟩
          cases hinside
          have hrest := (ih _).1 hmore
          refine ⟨by rw [hrest.split, List.cons_append], hrest.closing, ?_, ?_⟩
          · rw [Token.depthAfter_parens_cons hend]
            exact hrest.nested
          · rintro u (_ | ⟨_, hu⟩)
            · rwa [← breaksArguments_iff]
            · exact hrest.calm u hu
        · intro h
          rcases List.cons_eq_append_iff.1 h.split with ⟨rfl, hclose⟩ | ⟨more, rfl, hsplit⟩
          · -- the partner of an outer parenthesis would leave the inner ones open
            obtain ⟨rfl, rfl⟩ := List.cons.inj hclose
            have hdepth : depth = 0 := Option.some.inj h.nested
            simp [h.closing, hdepth] at hend
          · have hnested := h.nested
            rw [Token.depthAfter_parens_cons hend] at hnested
            exact ⟨_, (ih _).2 ⟨hsplit, h.closing, hnested,
              fun u hu => h.calm u (List.mem_cons_of_mem t hu)⟩, rfl⟩

/-- Where a list that is cut short ends: at the first token that interrupts it, which is left with
all that follows, or at the last token. -/
def CutShort (v : Vocabulary) (last : Position) (ts : List Token) (place : Position)
    (tail : List Token) : Prop :=
  (∃ read stop more, ts = read ++ stop :: more ∧ (∀ t ∈ read, ¬Interrupts v t) ∧
    Interrupts v stop ∧ place = stop.position ∧ tail = stop :: more) ∨
  (∀ t ∈ ts, ¬Interrupts v t) ∧ place = (ts.getLast?.map Token.position).getD last ∧ tail = []

theorem CutShort.cons (h : CutShort v t.position ts place tail) (ht : ¬Interrupts v t) :
    CutShort v last (t :: ts) place tail := by
  have hcalm : ∀ {us : List Token}, (∀ u ∈ us, ¬Interrupts v u) → ∀ u ∈ t :: us, ¬Interrupts v u :=
    fun hus => List.forall_mem_cons.2 ⟨ht, hus⟩
  rcases h with ⟨read, stop, more, rfl, hread, hstop, hplace, htail⟩ | ⟨hts, hplace, htail⟩
  · exact .inl ⟨t :: read, stop, more, rfl, hcalm hread, hstop, hplace, htail⟩
  · refine .inr ⟨hcalm hts, ?_, htail⟩
    rw [hplace, List.getLast?_cons]
    cases ts.getLast? <;> rfl

theorem cutShort_of_splitArguments (h : splitArguments v depth last ts = .error (place, tail)) :
    CutShort v last ts place tail := by
  induction ts generalizing depth last with
  | nil =>
    simp only [splitArguments, Except.error.injEq, Prod.mk.injEq] at h
    exact .inr ⟨by simp, h.1.symm, h.2.symm⟩
  | cons t rest ih =>
    rw [splitArguments] at h
    split at h
    · rename_i hbreak
      simp only [Except.error.injEq, Prod.mk.injEq] at h
      exact .inl ⟨[], t, rest, rfl, by simp, breaksArguments_iff.1 hbreak, h.1.symm, h.2.symm⟩
    · rename_i hbreak
      split at h
      · cases h
      · rw [map_eq_error_iff] at h
        exact (ih h).cons (mt breaksArguments_iff.2 hbreak)

/-! ## Where scanning stands -/

/-- Scanning the tokens `ts` comes to look at the tokens `us`, and has yielded `earlier` by then. -/
inductive Reaches (v : Vocabulary) (ts : List Token) :
    List (Except ScanFault Event) → List Token → Prop
  | start : Reaches v ts [] ts
  | look {earlier : List (Except ScanFault Event)} {t : Token} {rest : List Token} :
      Reaches v ts earlier (t :: rest) →
        Reaches v ts (earlier ++ (step v t rest).event.toList) (step v t rest).rest

namespace Reaches

variable {earlier : List (Except ScanFault Event)}

/-- What is yielded from there on is what scanning these tokens yields. -/
theorem events_eq (h : Reaches v ts earlier us) : events v ts = earlier ++ events v us := by
  induction h with
  | start => rfl
  | look _ ih => rw [ih, events, List.append_assoc]

theorem suffix (h : Reaches v ts earlier us) : us <:+ ts := by
  induction h with
  | start => exact List.suffix_rfl
  | @look _ t rest _ ih =>
    obtain ⟨read, hread, -⟩ := step_reports v t rest
    exact List.IsSuffix.trans ⟨t :: read, hread.symm⟩ ih

end Reaches

/-! ## Markers -/

/-- What a marker announces yields an event with the marker's attributes, or a fault of its
declaration. -/
def Carries (attributes : Excerpt) (outcome : Except ScanFault Event) : Prop :=
  (∃ e : Event, outcome = .ok e ∧ e.attributes? = some attributes) ∨
    ∃ f : ScanFault, outcome = .error f ∧ f.cause ≠ .unbalancedParentheses

theorem announced_carries (kind : MarkerKind) (position : Position) (attributes : Excerpt)
    (ts : List Token) :
    ∃ outcome, (announced kind position attributes ts).event = some outcome ∧
      Carries attributes outcome := by
  have hok : ∀ {e : Event} {rest : List Token}, e.attributes? = some attributes →
      ∃ outcome, (Step.found e rest).event = some outcome ∧ Carries attributes outcome :=
    fun he => ⟨_, rfl, .inl ⟨_, rfl, he⟩⟩
  have herror : ∀ {cause : ScanCause} {place : Position} {rest : List Token},
      cause ≠ .unbalancedParentheses →
      ∃ outcome, (Step.failed cause place rest).event = some outcome ∧
        Carries attributes outcome :=
    fun hcause => ⟨_, rfl, .inr ⟨_, rfl, hcause⟩⟩
  cases kind with
  | generatedBody => exact hok rfl
  | property =>
    simp only [announced, propertyStep]
    split
    · exact hok rfl
    · exact herror (by decide)
  | function =>
    simp only [announced, functionStep]
    split
    · split
      · split
        · exact hok rfl
        · exact herror (by decide)
      · exact hok rfl
    · exact herror (by decide)
  | container =>
    simp only [announced, containerStep]
    split
    · split
      · exact herror (by decide)
      · split
        · split
          · exact hok rfl
          · exact hok rfl
        · exact hok rfl
    · exact herror (by decide)

theorem suffix_announced (kind : MarkerKind) (position : Position) (attributes : Excerpt)
    (ts : List Token) : (announced kind position attributes ts).rest <:+ ts := by
  have hsuffix : ∀ {s : Step}, StepReports s ts → s.rest <:+ ts :=
    fun ⟨read, hread, _⟩ => ⟨read, hread.symm⟩
  cases kind with
  | generatedBody => exact List.suffix_rfl
  | container => exact hsuffix (containerStep_reports ..)
  | property => exact hsuffix (propertyStep_reports ..)
  | function => exact hsuffix (functionStep_reports ..)

/-- Scanning takes the text between two parentheses as the attributes of the marker before them,
and goes on behind what the marker announces, which starts behind the parentheses. -/
structure Takes (v : Vocabulary) (source : String) (marker opening : Token) (rest : List Token)
    (close : Token) (tail : List Token) (attributes : Excerpt)
    (outcome : Except ScanFault Event) (after : List Token) : Prop where
  text : ∃ front behind : String, source = front ++ attributes.text ++ behind ∧
    front.utf8ByteSize = opening.stop ∧ (front ++ attributes.text).utf8ByteSize = close.offset
  position : attributes.position = ⟨opening.position.line, opening.position.column + 1⟩
  events : events v (marker :: opening :: rest) = outcome :: Markup.events v after
  announces : ∃ kind, v.classify marker.text = some kind ∧
    announced kind marker.position attributes tail = ⟨some outcome, after⟩
  carries : Carries attributes outcome
  suffix : after <:+ tail

/-- Scanning yields one fault for a marker, and goes on at what interrupts its argument list. -/
structure Rejects (v : Vocabulary) (marker opening : Token) (rest : List Token) (place : Position)
    (tail : List Token) : Prop where
  fault : ∃ f : ScanFault, events v (marker :: opening :: rest) = .error f :: events v tail ∧
    ∀ file, f.inFile file = .malformedAttribute file place "unbalanced parentheses"
  cutShort : CutShort v opening.position rest place tail

section Marker

variable {source : String} {read rest : List Token}

/-- What stands between two tokens is the text that the tokens between them and the gaps take up. -/
theorem exists_between
    (h : Token.lex source = read ++ marker :: opening :: (inside ++ close :: tail)) :
    ∃ front behind : String, source = front ++ textBefore inside close ++ behind ∧
      front.utf8ByteSize = opening.stop ∧
      (front ++ textBefore inside close).utf8ByteSize = close.offset := by
  have hbetween : Token.lex source = (read ++ [marker]) ++ opening :: inside ++ close :: tail := by
    rw [h, List.append_assoc, List.append_cons, List.cons_append]
  exact Token.isSlice_between hbetween

theorem events_marker {kind : MarkerKind} (hkind : marker.kind = .identifier)
    (hnamespace : marker.text ≠ "namespace") (hword : v.classify marker.text = some kind)
    (hopen : opening.isPunctuation "(" = true) (rest : List Token) :
    events v (marker :: opening :: rest) =
      (markerStep v kind marker.position opening rest).event.toList ++
        events v (markerStep v kind marker.position opening rest).rest := by
  rw [events, step, if_pos hkind, wordStep_marker hnamespace hword hopen]

/-- What the parentheses behind a marker word enclose is taken as its attributes. -/
theorem exists_takes {kind : MarkerKind}
    (hlex : Token.lex source = read ++ marker :: opening :: rest)
    (hkind : marker.kind = .identifier) (hword : v.classify marker.text = some kind)
    (hnamespace : marker.text ≠ "namespace") (hopen : opening.isPunctuation "(" = true)
    (h : Encloses v 0 rest inside close tail) :
    ∃ attributes outcome after,
      Takes v source marker opening rest close tail attributes outcome after := by
  have hevents := events_marker hkind hnamespace hword hopen rest
  have hcut := (splitArguments_eq_ok_iff opening.position).2 h
  rw [markerStep_of_splitArguments hcut] at hevents
  obtain ⟨outcome, houtcome, hcarries⟩ := announced_carries kind marker.position
    ⟨textBefore inside close, ⟨opening.position.line, opening.position.column + 1⟩⟩ tail
  rw [houtcome] at hevents
  rw [h.split] at hlex
  exact ⟨_, outcome, _, exists_between hlex, rfl, hevents,
    ⟨kind, hword, by rw [← houtcome]⟩, hcarries, suffix_announced ..⟩

/-- **A marker's argument list, and where scanning goes on.** Where scanning comes to a marker word
with an opening parenthesis, and the partner of that stands before anything that interrupts an
argument list, the attributes are what stands between the two. Otherwise the marker yields one
fault, at what interrupts the list or at the last token, and from there on the events are those of
a scan that starts there. The word of a namespace is no marker. -/
theorem marker_arguments {earlier : List (Except ScanFault Event)}
    (hreach : Reaches v (Token.lex source) earlier (marker :: opening :: rest))
    (hkind : marker.kind = .identifier) (hword : marker.text ∈ v.words)
    (hnamespace : marker.text ≠ "namespace") (hopen : opening.isPunctuation "(" = true) :
    scan v source = earlier ++ events v (marker :: opening :: rest) ∧
    (∀ inside close tail, Encloses v 0 rest inside close tail →
      ∃ attributes outcome after,
        Takes v source marker opening rest close tail attributes outcome after) ∧
    ((¬∃ inside close tail, Encloses v 0 rest inside close tail) →
      ∃ place tail, Rejects v marker opening rest place tail) := by
  obtain ⟨kind, hclassify⟩ := Option.isSome_iff_exists.1 ((v.isSome_classify_iff _).2 hword)
  have hevents := events_marker hkind hnamespace hclassify hopen rest
  obtain ⟨read, hlex⟩ := hreach.suffix
  refine ⟨hreach.events_eq, fun inside close tail h => ?_, fun hnone => ?_⟩
  · exact exists_takes hlex.symm hkind hclassify hnamespace hopen h
  · cases hcut : splitArguments v 0 opening.position rest with
    | ok cut => exact absurd ⟨_, _, _, (splitArguments_eq_ok_iff _).1 hcut⟩ hnone
    | error cut =>
      obtain ⟨place, tail⟩ := cut
      refine ⟨place, tail, ⟨⟨.unbalancedParentheses, place⟩, ?_, fun file => rfl⟩,
        cutShort_of_splitArguments hcut⟩
      rw [hevents, markerStep, hcut]
      rfl

/-- A word at the start of a text. -/
def leadingWord (word : String) : Token :=
  ⟨.identifier, word, "", 0, .start⟩

/-- A mark on the first line of a text, behind so many letters and marks. -/
def markBehind (offset : Nat) (mark : String) : Token :=
  ⟨.punctuation, mark, "", offset, ⟨1, offset + 1⟩⟩

/-- A semicolon interrupts the list of a marker. -/
theorem marker_arguments_interrupted :
    (Token.lex "PROPERTY(;" = [leadingWord "PROPERTY", markBehind 8 "(", markBehind 9 ";"] ∧
      Reaches {} (Token.lex "PROPERTY(;") []
        [leadingWord "PROPERTY", markBehind 8 "(", markBehind 9 ";"] ∧
      ¬∃ inside close tail, Encloses {} 0 [markBehind 9 ";"] inside close tail) ∧
    ∃ place tail, Rejects {} (leadingWord "PROPERTY") (markBehind 8 "(") [markBehind 9 ";"]
      place tail := by
  have hlex : Token.lex "PROPERTY(;" =
      [leadingWord "PROPERTY", markBehind 8 "(", markBehind 9 ";"] := by
    decide +kernel
  have hreach : Reaches {} (Token.lex "PROPERTY(;") []
      [leadingWord "PROPERTY", markBehind 8 "(", markBehind 9 ";"] := by
    rw [hlex]
    exact .start
  have hnone : ¬∃ inside close tail, Encloses {} 0 [markBehind 9 ";"] inside close tail := by
    rintro ⟨inside, close, tail, h⟩
    cases (splitArguments_eq_ok_iff .start).2 h
  exact ⟨⟨hlex, hreach, hnone⟩,
    (marker_arguments hreach rfl (by decide) (by decide) rfl).2.2 hnone⟩

/-- A word of the vocabulary that is `namespace` is no marker: nothing is reported for the list
that is interrupted behind it. -/
theorem namespace_not_marker :
    ¬∀ (v : Vocabulary) (source : String) (marker opening : Token) (rest : List Token)
      (earlier : List (Except ScanFault Event)),
      Reaches v (Token.lex source) earlier (marker :: opening :: rest) →
      marker.kind = .identifier → marker.text ∈ v.words → opening.isPunctuation "(" = true →
      (¬∃ inside close tail, Encloses v 0 rest inside close tail) →
        ∃ place tail, Rejects v marker opening rest place tail := by
  intro h
  have hlex : Token.lex "namespace(;" =
      [leadingWord "namespace", markBehind 9 "(", markBehind 10 ";"] := by
    decide +kernel
  have hreach : Reaches { property := ["namespace"] } (Token.lex "namespace(;") []
      [leadingWord "namespace", markBehind 9 "(", markBehind 10 ";"] := by
    rw [hlex]
    exact .start
  have hnone : ¬∃ inside close tail,
      Encloses { property := ["namespace"] } 0 [markBehind 10 ";"] inside close tail := by
    rintro ⟨inside, close, tail, h⟩
    cases (splitArguments_eq_ok_iff .start).2 h
  obtain ⟨place, tail, hrejects⟩ := h _ _ _ _ _ _ hreach rfl (by decide) rfl hnone
  obtain ⟨f, hevents, -⟩ := hrejects.fault
  have hsilent : events { property := ["namespace"] }
      [leadingWord "namespace", markBehind 9 "(", markBehind 10 ";"] = [] := by
    decide +kernel
  rw [hsilent] at hevents
  cases hevents

end Marker

end Markup

end HeaderReflection
