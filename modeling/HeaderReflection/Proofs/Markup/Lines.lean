import HeaderReflection.Proofs.Declaration.Declares
import HeaderReflection.Proofs.Markup.Cuts

/-!
# Lines that yield events

What the scanner makes of a line does not depend on what follows it, so the events of a text are
those of its lines, one after the other.

* `Yields.append`: texts yield their events one after the other.
* `Yields.marker`: a marker with its argument list yields what it announces.
* `yields_property`, `yields_function`, `yields_record`, `yields_enum`: the declarations behind
  markers.
-/

namespace HeaderReflection

open Declaration (enumDepth)

/-- An event without its places. -/
inductive Sign where
  | container (attributes declaration : String) (body : Option String)
  | property (attributes declaration : String)
  | function (attributes declaration : String)
  | generatedBody
  | label (visibility : Visibility)
  | openNamespace (name : String)
  | openBrace
  | closeBrace

/-- The event without its places. -/
def Event.sign : Event → Sign
  | .container _ attributes declaration body => .container attributes.text declaration.text body
  | .property _ attributes declaration => .property attributes.text declaration.text
  | .function _ attributes declaration => .function attributes.text declaration.text
  | .generatedBody .. => .generatedBody
  | .label _ visibility => .label visibility
  | .openNamespace _ name => .openNamespace name.text
  | .openBrace _ => .openBrace
  | .closeBrace _ => .closeBrace

open Markup

/-- Tokens that are cut into the given pieces yield events of the given kinds, whatever follows
them. -/
def Scans (ps : List Piece) (signs : List Sign) : Prop :=
  ∀ ts us : List Token, ts.map Token.piece = ps →
    ∃ es : List Event, events {} (ts ++ us) = es.map .ok ++ events {} us ∧ es.map Event.sign = signs

/-- A text yields events of the given kinds. -/
def Yields (cs : List Char) (signs : List Sign) : Prop :=
  ∃ ps, Reads cs ps isBreak ∧ Scans ps signs

variable {cs ds : List Char} {ps qs : List Piece} {signs more : List Sign} {sign : Sign}

theorem Scans.append (h : Scans ps signs) (h' : Scans qs more) :
    Scans (ps ++ qs) (signs ++ more) := by
  intro ts us hts
  obtain ⟨front, back, rfl, hfront, hback⟩ := List.map_eq_append_iff.1 hts
  obtain ⟨es, hes, hsigns⟩ := h front (back ++ us) hfront
  obtain ⟨fs, hfs, hmore⟩ := h' back us hback
  refine ⟨es ++ fs, ?_, by rw [List.map_append, hsigns, hmore]⟩
  rw [List.append_assoc, hes, hfs, List.map_append, List.append_assoc]

/-- Tokens that one look uses up. -/
theorem Scans.step {p : Piece} (h : ∀ t rest us, t.piece = p → rest.map Token.piece = ps →
    ∃ e : Event, Markup.step {} t (rest ++ us) = .found e us ∧ e.sign = sign) :
    Scans (p :: ps) [sign] := by
  intro ts us hts
  obtain ⟨t, rest, rfl, ht, hrest⟩ := List.map_eq_cons_iff.1 hts
  obtain ⟨e, he, hsign⟩ := h t rest us ht hrest
  refine ⟨[e], ?_, by rw [List.map_singleton, hsign]⟩
  rw [List.cons_append, events, he]
  rfl

namespace Yields

theorem nil : Yields [] [] :=
  ⟨[], .nil _, fun ts us hts => ⟨[], by rw [List.map_eq_nil_iff.1 hts]; rfl, rfl⟩⟩

/-- Texts yield their events one after the other. -/
theorem append (h : Yields cs signs) (h' : Yields ds more)
    (hhead : ∀ c ∈ ds.head?, isBreak c = true) : Yields (cs ++ ds) (signs ++ more) := by
  obtain ⟨ps, hps, hscans⟩ := h
  obtain ⟨qs, hqs, hscans'⟩ := h'
  exact ⟨ps ++ qs, hps.append hqs hhead fun _ _ hc => hc, hscans.append hscans'⟩

end Yields

theorem isPunctuation_of_piece {t : Token} {gap m : String}
    (h : t.piece = ⟨gap, .punctuation, m⟩) : t.isPunctuation m = true := by
  have hkind : t.kind = .punctuation := congrArg Piece.kind h
  have htext : t.text = m := congrArg Piece.text h
  simp [Token.isPunctuation, hkind, htext]

/-! ## Markers -/

/-- What a marker announces, read off what stands behind its argument list. -/
def announced (kind : MarkerKind) (position : Text.Position) (attributes : Excerpt)
    (ts : List Token) : Step :=
  match kind with
  | .generatedBody => .found (.generatedBody position attributes) ts
  | .container => containerStep position attributes ts
  | .property => propertyStep position attributes ts
  | .function => functionStep position attributes ts

theorem markerStep_of_splitArguments {v : Vocabulary} {kind : MarkerKind}
    {position : Text.Position} {opening close : Token} {ts inside rest : List Token}
    (h : splitArguments v 0 opening.position ts = .ok (inside, close, rest)) :
    markerStep v kind position opening ts = announced kind position
      ⟨textBefore inside close, ⟨opening.position.line, opening.position.column + 1⟩⟩ rest := by
  unfold markerStep
  rw [h]
  cases kind <;> rfl

theorem wordStep_marker {v : Vocabulary} {kind : MarkerKind} {t opening : Token} {ts : List Token}
    (hnamespace : t.text ≠ "namespace") (hword : v.classify t.text = some kind)
    (hopen : opening.isPunctuation "(" = true) :
    wordStep v t (opening :: ts) = markerStep v kind t.position opening ts := by
  unfold wordStep
  rw [if_neg hnamespace, hword]
  simp only [hopen, if_true]

/-- A marker with its argument list yields what it announces. -/
theorem Yields.marker (kind : MarkerKind) (word : String) (sign : Sign) {attributes : List Char}
    (hid : IsIdentifier word) (hword : Vocabulary.classify {} word = some kind)
    (hattributes : IsArguments attributes) (hread : Reads ds qs isBreak)
    (h : ∀ position (a : Excerpt) ts us, a.text = String.ofList attributes →
      ts.map Token.piece = qs →
      ∃ e : Event, announced kind position a (ts ++ us) = .found e us ∧ e.sign = sign) :
    Yields ('\n' :: (word.toList ++ '(' :: (attributes ++ ')' :: ds))) [sign] := by
  obtain ⟨_, ⟨aps, haps, rfl⟩, hleads, hkeeps⟩ := hattributes
  have hfront : SpellsPieces word.toList [⟨"", .identifier, word⟩] isBreak :=
    { SpellsPieces.word hid with
      toReads := (SpellsPieces.word hid).toReads.weaken fun c hc => (ends_of_isBreak hc).1 }
  have hopen := Reads.mark (c := '(') rfl fun _ => true
  have hclose := Reads.mark (c := ')') rfl fun _ => true
  have hinner := haps.toReads.append (hclose.append hread (by simp) (by simp))
    (by rintro c ⟨⟩; rfl) (by simp)
  have hgroup := hopen.append hinner (by simp) (by simp)
  have hline := (hfront.toReads.behind rfl (.inr ⟨rfl, hfront.head⟩)).append hgroup
    (by rintro c ⟨⟩; rfl) (by simp)
  refine ⟨⟨"\n", .identifier, word⟩ :: ⟨"", .punctuation, "("⟩ ::
    (aps ++ ⟨"", .punctuation, ")"⟩ :: qs), by simpa using hline,
    .step fun t rest us ht hrest => ?_⟩
  obtain ⟨opening, rest, rfl, hopening, hrest⟩ := List.map_eq_cons_iff.1 hrest
  obtain ⟨inside, rest, rfl, hinside, hrest⟩ := List.map_eq_append_iff.1 hrest
  obtain ⟨close, ts, rfl, hclosing, hts⟩ := List.map_eq_cons_iff.1 hrest
  have hproper : ∀ u ∈ inside, u.piece.Proper := by
    intro u hu
    exact haps.proper _ (hinside ▸ List.mem_map_of_mem hu)
  have htexts : inside.map Token.text = aps.map Piece.text := by
    rw [← hinside, List.map_map]
    rfl
  have hkeeps' : ∀ u ∈ inside, ¬Breaks u.text := by
    intro u hu
    exact hkeeps _ (htexts ▸ List.mem_map_of_mem hu)
  have hkind : t.kind = .identifier := congrArg Piece.kind ht
  have htext : t.text = word := congrArg Piece.text ht
  have hnamespace : word ≠ "namespace" := by
    rintro rfl
    cases hword
  have hparen : opening.isPunctuation "(" = true := isPunctuation_of_piece hopening
  have hcut := splitArguments_close hproper hkeeps' (htexts ▸ hleads) opening.position
    (isPunctuation_of_piece hclosing) (ts ++ us)
  have harguments : textBefore inside close = String.ofList attributes := by
    have hgap : close.gap = "" := congrArg Piece.gap hclosing
    rw [← String.toList_inj, textBefore, String.toList_append, Piece.toList_spell, hinside,
      haps.spell, hgap]
    simp
  obtain ⟨e, he, hsign⟩ := h t.position ⟨textBefore inside close,
    ⟨opening.position.line, opening.position.column + 1⟩⟩ ts us harguments hts
  refine ⟨e, ?_, hsign⟩
  rw [List.cons_append, List.append_assoc, List.cons_append, Markup.step, if_pos hkind,
    wordStep_marker (htext ▸ hnamespace) (htext ▸ hword) hparen,
    markerStep_of_splitArguments hcut, he]

/-- The marker of generated code yields its event. -/
theorem yields_generatedBody : Yields "\nGENERATED_BODY()".toList [.generatedBody] := by
  have h := Yields.marker .generatedBody "GENERATED_BODY" .generatedBody (by decide) rfl .nil
    (.nil isBreak) fun position a ts us _ hts => by
      rw [List.map_eq_nil_iff.1 hts]
      exact ⟨_, rfl, rfl⟩
  exact h

/-- A word on a line of its own. -/
theorem reads_line (word : String) (hid : IsIdentifier word) :
    Reads ('\n' :: word.toList) [⟨"\n", .identifier, word⟩] isBreak := by
  have hword := SpellsPieces.word hid
  have hends := hword.toReads.weaken fun c hc => (ends_of_isBreak hc).1
  exact hends.behind rfl (.inr ⟨rfl, hword.head⟩)

/-- An access label yields its event. -/
theorem yields_label (v : Visibility) :
    Yields ("\n" ++ v.word ++ ":").toList [.label v] := by
  have hword := SpellsPieces.word (Base.isIdentifier_access v)
  have hread := (hword.toReads.behind rfl (.inr ⟨rfl, hword.head⟩)).append
    SpellsPieces.colon.toReads (by rintro c ⟨⟩; decide) (by simp)
  refine ⟨_, by simpa using hread, .step fun t rest us ht hrest => ?_⟩
  obtain ⟨colon, rest, rfl, hcolon, hrest⟩ := List.map_eq_cons_iff.1 hrest
  obtain rfl := List.map_eq_nil_iff.1 hrest
  have hkind : t.kind = .identifier := congrArg Piece.kind ht
  have htext : t.text = v.word := congrArg Piece.text ht
  have hmark := isPunctuation_of_piece hcolon
  have hnamespace : v.word ≠ "namespace" := by
    cases v <;> decide
  have hclassify : Vocabulary.classify {} v.word = none := by
    cases v <;> decide
  have haccess : Visibility.ofWord? v.word = some v := by
    cases v <;> rfl
  refine ⟨.label t.position v, ?_, rfl⟩
  have hword : wordStep {} t (colon :: us) = .found (.label t.position v) us := by
    unfold wordStep
    simp only [htext, hnamespace, if_false, hclassify, haccess, hmark, if_true]
  rw [List.singleton_append, Markup.step, if_pos hkind, hword]

/-- A closing brace yields its event. -/
theorem yields_brace : Yields "\n\x7d".toList [.closeBrace] := by
  have hread := (Reads.mark (c := '\x7d') rfl isBreak).behind rfl (b := '\n')
    (.inr ⟨rfl, by decide⟩)
  refine ⟨_, hread, .step fun t rest us ht hrest => ?_⟩
  obtain rfl := List.map_eq_nil_iff.1 hrest
  have hkind : t.kind = .punctuation := congrArg Piece.kind ht
  have htext : t.text = "\x7d" := congrArg Piece.text ht
  refine ⟨.closeBrace t.position, ?_, rfl⟩
  simp [Markup.step, hkind, Token.isPunctuation, htext]

theorem yields_semicolon : Yields ";".toList [] := by
  refine ⟨_, Reads.mark (c := ';') rfl isBreak, fun ts us hts => ⟨[], ?_, rfl⟩⟩
  obtain ⟨t, rest, rfl, ht, hrest⟩ := List.map_eq_cons_iff.1 hts
  obtain rfl := List.map_eq_nil_iff.1 hrest
  have hkind : t.kind = .punctuation := congrArg Piece.kind ht
  have htext : t.text = ";" := congrArg Piece.text ht
  have hstep : Markup.step {} t us = ⟨none, us⟩ := by
    simp [Markup.step, hkind, Token.isPunctuation, htext]
  rw [List.singleton_append, events, hstep]
  rfl

/-! ## Declarations -/

/-- The tokens of a declaration in front of its terminator are cut off, and its text is cut out. -/
theorem Declares.cut {terminators : List String} {text : String} {texts : List String}
    (h : Declares terminators text texts) (mark : String) (hmark : mark ∈ terminators)
    {gap : String} (hgap : gap = "" ∨ gap = " ") :
    ∃ p ps, Reads (' ' :: text.toList) (p :: ps) isBreak ∧
      ∀ (ts us : List Token) (stop : Token), ts.map Token.piece = p :: ps →
        stop.piece = ⟨gap, .punctuation, mark⟩ →
        ∃ first more, ts = first :: more ∧ ts.map Token.text = texts ∧
          splitUntil terminators 0 (ts ++ stop :: us) = (first :: more, some (stop, us)) ∧
          (excerptOf first more stop).text = text := by
  obtain ⟨ps, hps, rfl⟩ := h.spells
  cases ps with
  | nil => exact absurd (hps.eq_nil_iff.1 rfl) (toList_ne_nil h.ne_empty)
  | cons p ps =>
    refine ⟨p.behind ' ', ps, hps.toReads.behind (hps.tight p rfl) (.inl rfl), ?_⟩
    intro ts us stop hts hstop
    obtain ⟨first, more, rfl, hfirst, hmore⟩ := List.map_eq_cons_iff.1 hts
    have htext : first.text = p.text := congrArg Piece.text hfirst
    have hkind : first.kind = p.kind := congrArg Piece.kind hfirst
    have htexts : (first :: more).map Token.text = (p :: ps).map Piece.text := by
      rw [List.map_cons, List.map_cons, htext, ← hmore, List.map_map]
      rfl
    have hproper : ∀ t ∈ first :: more, t.piece.Proper := by
      rw [List.forall_mem_cons]
      refine ⟨fun hm => ?_, fun t ht => ?_⟩
      · rw [Token.piece_text, htext] at hm
        exact hkind.trans (hps.proper p List.mem_cons_self hm)
      · exact hps.proper _ (List.mem_cons_of_mem _ (hmore ▸ List.mem_map_of_mem ht))
    have hstopKind : stop.kind = .punctuation := congrArg Piece.kind hstop
    have hstopText : stop.text = mark := congrArg Piece.text hstop
    have hstopGap : stop.gap = gap := congrArg Piece.gap hstop
    refine ⟨first, more, rfl, htexts, ?_, ?_⟩
    · exact splitUntil_stop hproper (htexts ▸ h.leads) hstopKind (hstopText ▸ hmark) us
    · rw [text_excerptOf hps htext hmore (hstopGap ▸ hgap), String.ofList_toList]

/-- Tokens in front of one more. -/
theorem exists_of_map_concat {ts : List Token} {p : Piece} (h : ts.map Token.piece = ps ++ [p]) :
    ∃ front stop, ts = front ++ [stop] ∧ front.map Token.piece = ps ∧ stop.piece = p := by
  obtain ⟨front, back, rfl, hfront, hback⟩ := List.map_eq_append_iff.1 h
  obtain ⟨stop, rest, rfl, hstop, hrest⟩ := List.map_eq_cons_iff.1 hback
  exact ⟨front, stop, by rw [List.map_eq_nil_iff.1 hrest], hfront, hstop⟩

/-- A property with its marker yields its event. -/
theorem yields_property {attributes : List Char} {text : String} {texts : List String}
    (hattributes : IsArguments attributes) (h : Declares [";"] text texts) :
    Yields ("\nPROPERTY(".toList ++ (attributes ++ (") ".toList ++ (text.toList ++ [';']))))
      [.property (String.ofList attributes) text] := by
  obtain ⟨p, ps, hread, hcut⟩ := h.cut ";" (by simp) (.inl rfl)
  have hline := hread.append (.mark (c := ';') rfl isBreak) (by rintro c ⟨⟩; rfl) (by simp)
  refine .marker .property "PROPERTY" _ (by decide) rfl hattributes hline ?_
  intro position a ts us ha hts
  obtain ⟨front, stop, rfl, hfront, hstop⟩ := exists_of_map_concat hts
  obtain ⟨first, more, rfl, -, hsplit, htext⟩ := hcut front us stop hfront hstop
  refine ⟨.property position a (excerptOf first more stop), ?_, by rw [Event.sign, ha, htext]⟩
  rw [List.append_assoc, announced, propertyStep, List.singleton_append, hsplit]

/-- A function with its marker yields its event. -/
theorem yields_function {attributes : List Char} {text : String} {texts : List String}
    (hattributes : IsArguments attributes) (h : Declares [";", "\x7b"] text texts) :
    Yields ("\nFUNCTION(".toList ++ (attributes ++ (") ".toList ++ (text.toList ++ [';']))))
      [.function (String.ofList attributes) text] := by
  obtain ⟨p, ps, hread, hcut⟩ := h.cut ";" (by simp) (.inl rfl)
  have hline := hread.append (.mark (c := ';') rfl isBreak) (by rintro c ⟨⟩; rfl) (by simp)
  refine .marker .function "FUNCTION" _ (by decide) rfl hattributes hline ?_
  intro position a ts us ha hts
  obtain ⟨front, stop, rfl, hfront, hstop⟩ := exists_of_map_concat hts
  obtain ⟨first, more, rfl, -, hsplit, htext⟩ := hcut front us stop hfront hstop
  have hbody : stop.isPunctuation "\x7b" = false := by
    have hmark : stop.text = ";" := congrArg Piece.text hstop
    simp [Token.isPunctuation, hmark]
  refine ⟨.function position a (excerptOf first more stop), ?_, by rw [Event.sign, ha, htext]⟩
  rw [List.append_assoc, announced, functionStep, List.singleton_append, hsplit]
  simp [hbody]

/-- A class or struct with its marker yields its event, up to its opening brace. -/
theorem yields_record {word : String} {attributes : List Char} {text : String} {texts : List String}
    (hid : IsIdentifier word) (hword : Vocabulary.classify {} word = some .container)
    (hattributes : IsArguments attributes) (h : Declares ["\x7b", ";"] text texts)
    (henum : texts.head? ≠ some "enum") :
    Yields ('\n' :: (word.toList ++ '(' :: (attributes ++ (") ".toList ++
        (text.toList ++ " \x7b".toList)))))
      [.container (String.ofList attributes) text none] := by
  obtain ⟨p, ps, hread, hcut⟩ := h.cut "\x7b" (by simp) (.inr rfl)
  have hbrace := (Reads.mark (c := '\x7b') rfl isBreak).behind rfl (.inl rfl)
  have hline := hread.append hbrace (by rintro c ⟨⟩; rfl) (by simp)
  refine .marker .container word _ hid hword hattributes hline ?_
  intro position a ts us ha hts
  obtain ⟨front, stop, rfl, hfront, hstop⟩ := exists_of_map_concat hts
  obtain ⟨first, more, rfl, htexts, hsplit, htext⟩ := hcut front us stop hfront hstop
  have hsemicolon : stop.isPunctuation ";" = false := by
    have hmark : stop.text = "\x7b" := congrArg Piece.text hstop
    simp [Token.isPunctuation, hmark]
  have hfirst : first.text ≠ "enum" := by
    rintro heq
    rw [← htexts, List.map_cons, List.head?_cons, heq] at henum
    exact henum rfl
  refine ⟨.container position a (excerptOf first more stop) none, ?_,
    by rw [Event.sign, ha, htext]⟩
  rw [List.append_assoc, announced, containerStep, List.singleton_append, hsplit]
  simp [hsemicolon, hfirst]

/-- An enum with its marker yields its event, with its body. -/
theorem yields_enum {attributes : List Char} {text : String} {texts : List String}
    {es : List Enumerator} (hattributes : IsArguments attributes)
    (h : Declares ["\x7b", ";"] text texts) (henum : texts.head? = some "enum")
    (hes : ∀ e ∈ es, e.Canonical) :
    Yields ("\nENUM(".toList ++ (attributes ++ (") ".toList ++ (text.toList ++
        (" \x7b".toList ++ ((entriesText es).toList ++ " \x7d;".toList))))))
      [.container (String.ofList attributes) text (some (entriesText es ++ " "))] := by
  obtain ⟨p, ps, hread, hcut⟩ := h.cut "\x7b" (by simp) (.inr rfl)
  obtain ⟨qs, hbody, hpieces⟩ := reads_body hes fun _ => true
  have hbrace := (Reads.mark (c := '\x7b') rfl fun _ => true).behind rfl (.inl rfl)
  have htail := hbody.append (.mark (c := ';') rfl isBreak) (by simp) (by simp)
  have hline := (hread.append hbrace (by rintro c ⟨⟩; rfl) (by simp)).append htail
    (by simp) (by simp)
  have hyields := Yields.marker .container "ENUM"
    (.container (String.ofList attributes) text (some (entriesText es ++ " ")))
    (by decide) rfl hattributes hline ?_
  · simpa using hyields
  intro position a ts us ha hts
  obtain ⟨heading, behind, rfl, hheading, hbehind⟩ := List.map_eq_append_iff.1 hts
  obtain ⟨front, stop, rfl, hfront, hstop⟩ := exists_of_map_concat hheading
  obtain ⟨body, semicolon, rfl, hbody, hsemicolon⟩ := exists_of_map_concat hbehind
  obtain ⟨inside, close, rfl, hinside, hclose⟩ := exists_of_map_concat hbody
  obtain ⟨first, more, rfl, htexts, hsplit, htext⟩ :=
    hcut front (inside ++ close :: semicolon :: us) stop hfront hstop
  have hnoSemicolon : stop.isPunctuation ";" = false := by
    have hmark : stop.text = "\x7b" := congrArg Piece.text hstop
    simp [Token.isPunctuation, hmark]
  have hfirst : first.text = "enum" := by
    rw [← htexts] at henum
    exact Option.some.inj henum
  have hproper : ∀ t ∈ inside, t.piece.Proper := fun t ht =>
    hpieces.proper _ (hinside ▸ List.mem_map_of_mem ht)
  have hbraces : Leads braceDepth (fun _ => False) 0 (inside.map Token.text) 0 := by
    have hleads := hpieces.braces
    rw [← hinside, List.map_map] at hleads
    exact hleads
  have hcutBody := splitBraces?_close hproper hbraces (isPunctuation_of_piece hclose)
    (semicolon :: us)
  have hentries : textBefore inside close = entriesText es ++ " " := by
    have hgap : close.gap = " " := congrArg Piece.gap hclose
    rw [← String.toList_inj, textBefore, String.toList_append, Piece.toList_spell, hinside,
      hpieces.spell, hgap, String.toList_append]
  refine ⟨.container position a (excerptOf first more stop) (some (textBefore inside close)), ?_,
    by rw [Event.sign, ha, htext, hentries]⟩
  have htokens : first :: more ++ [stop] ++ (inside ++ [close] ++ [semicolon]) ++ us =
      first :: more ++ stop :: (inside ++ close :: semicolon :: us) := by
    simp
  rw [htokens, announced, containerStep, hsplit]
  simp only [hnoSemicolon, hfirst, hcutBody, dropPunctuation, isPunctuation_of_piece hsemicolon,
    if_true, Bool.false_eq_true, if_false]

/-- A namespace yields its event, up to its opening brace. -/
theorem yields_namespace {text : String} {texts : List String}
    (h : Declares ["\x7b", ";"] text texts) :
    Yields ("\nnamespace".toList ++ (' ' :: (text.toList ++ " \x7b".toList)))
      [.openNamespace text] := by
  obtain ⟨p, ps, hread, hcut⟩ := h.cut "\x7b" (by simp) (.inr rfl)
  have hbrace := (Reads.mark (c := '\x7b') rfl isBreak).behind rfl (.inl rfl)
  have hname := hread.append hbrace (by rintro c ⟨⟩; rfl) (by simp)
  have hline := (reads_line "namespace" (by decide)).append hname
    (by rintro c ⟨⟩; rfl) (by simp)
  refine ⟨_, hline, .step fun t rest us ht hrest => ?_⟩
  obtain ⟨front, stop, rfl, hfront, hstop⟩ := exists_of_map_concat hrest
  obtain ⟨first, more, rfl, -, hsplit, htext⟩ := hcut front us stop hfront hstop
  have hkind : t.kind = .identifier := congrArg Piece.kind ht
  have hword : t.text = "namespace" := congrArg Piece.text ht
  have hopen : stop.isPunctuation "\x7b" = true := isPunctuation_of_piece hstop
  refine ⟨.openNamespace t.position (excerptOf first more stop), ?_, by rw [Event.sign, htext]⟩
  have hstep : wordStep {} t (first :: more ++ stop :: us) =
      .found (.openNamespace t.position (excerptOf first more stop)) us := by
    unfold wordStep
    rw [if_pos hword, namespaceStep, hsplit]
    simp only [hopen, if_true]
  rw [List.append_assoc, List.singleton_append, Markup.step, if_pos hkind, hstep]

end HeaderReflection
