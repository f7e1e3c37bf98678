import HeaderReflection.Proofs.Markup.Heeded

/-!
# The gist of a scan

What is built of an event rests on the tokens of its declaration and on its other texts. Tokens that
differ in no more than mute gaps yield events that agree in this. What differs in other gaps too
yields events that agree in all but their texts.

* `step_alike`: one look at alike tokens.
* `events_alike`: all looks.
-/

namespace HeaderReflection

open Text (Position)

/-- A declaration as it is read: its tokens, and the place where it starts. -/
def Excerpt.reading (e : Excerpt) : List String × Position :=
  (Declaration.tokens e.text, e.position)

/-- An event with its declaration and its body as they are read. -/
inductive Gist where
  | container (position : Position) (attributes : Excerpt) (declaration : List String × Position)
    (body : Option (List Enumerator))
  | property (position : Position) (attributes : Excerpt) (declaration : List String × Position)
  | function (position : Position) (attributes : Excerpt) (declaration : List String × Position)
  | generatedBody (position : Position)
  | label (position : Position) (visibility : Visibility)
  | openNamespace (position : Position) (name : Excerpt)
  | openBrace (position : Position)
  | closeBrace (position : Position)

/-- What is built of an event. -/
def Event.gist : Event → Gist
  | .container position attributes declaration body =>
    .container position attributes declaration.reading (body.map Enumerator.parseAll)
  | .property position attributes declaration => .property position attributes declaration.reading
  | .function position attributes declaration => .function position attributes declaration.reading
  | .generatedBody position _ => .generatedBody position
  | .label position visibility => .label position visibility
  | .openNamespace position name => .openNamespace position name
  | .openBrace position => .openBrace position
  | .closeBrace position => .closeBrace position

/-- What is built of an event, or the fault in its place. -/
def gistOf : Except ScanFault Event → Except ScanFault Gist :=
  Except.map Event.gist

/-- The excerpt without its text. -/
def Excerpt.bare (e : Excerpt) : Excerpt :=
  ⟨"", e.position⟩

/-- The event without its texts: what it is, and where. -/
def Event.bare : Event → Event
  | .container position attributes declaration body =>
    .container position attributes.bare declaration.bare (body.map fun _ => "")
  | .property position attributes declaration => .property position attributes.bare declaration.bare
  | .function position attributes declaration => .function position attributes.bare declaration.bare
  | .generatedBody position attributes => .generatedBody position attributes.bare
  | .label position visibility => .label position visibility
  | .openNamespace position name => .openNamespace position name.bare
  | .openBrace position => .openBrace position
  | .closeBrace position => .closeBrace position

/-- What an event is, and where, or the fault in its place. -/
def bareOf : Except ScanFault Event → Except ScanFault Event :=
  Except.map Event.bare

namespace Markup

open Token (Alike AlikeInPlace)

/-- Tokens of a text. -/
def Lexed (ts : List Token) : Prop :=
  ∃ k cs, Token.lexFrom k cs = ts

theorem Lexed.of_append {ts us : List Token} (h : Lexed (ts ++ us)) : Lexed us := by
  obtain ⟨k, cs, h⟩ := h
  obtain ⟨k', rest, hus, -⟩ := Token.exists_lexFrom_of_append h
  exact ⟨k', rest, hus.symm⟩

theorem Lexed.of_suffix {ts us : List Token} (h : Lexed ts) (hs : us <:+ ts) : Lexed us := by
  obtain ⟨before, rfl⟩ := hs
  exact h.of_append

theorem Lexed.rest {first stop : Token} {more rest : List Token}
    (h : Lexed (first :: (more ++ stop :: rest))) : Lexed rest :=
  h.of_suffix ⟨first :: (more ++ [stop]), by simp⟩

variable {keep : Token → Bool} {ts ts' : List Token}

/-- Tokens that are alike, one by one, and stand at the same places. -/
abbrev Alikes (keep : Token → Bool) : List Token → List Token → Prop :=
  List.Forall₂ (AlikeInPlace keep)

theorem Alikes.alike (h : Alikes keep ts ts') : List.Forall₂ (Alike keep) ts ts' :=
  h.imp fun _ _ ht => ht.toAlike

/-! ## Cutting alike tokens -/

/-- Alike results of a search for a token, with what follows it. -/
abbrev StopsAlike (keep : Token → Bool) :
    Option (Token × List Token) → Option (Token × List Token) → Prop :=
  Option.Rel fun a b => AlikeInPlace keep a.1 b.1 ∧ Alikes keep a.2 b.2

theorem splitUntil_alike (terminators : List String) (depth : Nat) (h : Alikes keep ts ts') :
    Alikes keep (splitUntil terminators depth ts).1 (splitUntil terminators depth ts').1 ∧
      StopsAlike keep (splitUntil terminators depth ts).2 (splitUntil terminators depth ts').2 := by
  induction h generalizing depth with
  | nil => exact ⟨.nil, .none⟩
  | cons ht hrest ih =>
    rw [splitUntil, splitUntil, ht.kind, ht.text]
    split
    · exact ⟨.nil, .some ⟨ht, hrest⟩⟩
    · exact ⟨.cons ht (ih _).1, (ih _).2⟩

theorem restAfter_alike {stop stop' : Option (Token × List Token)}
    (h : StopsAlike keep stop stop') : Alikes keep (restAfter stop) (restAfter stop') := by
  cases h with
  | none => exact .nil
  | some h => exact h.2

/-- Alike cuts: nothing before the terminator, no terminator, or a stretch of tokens of both texts
up to a terminator. -/
inductive CutAlike (keep : Token → Bool) :
    List Token × Option (Token × List Token) → List Token × Option (Token × List Token) → Prop
  | empty {stop stop' : Option (Token × List Token)} :
    StopsAlike keep stop stop' → CutAlike keep ([], stop) ([], stop')
  | unended {first first' : Token} {more more' : List Token} :
    CutAlike keep (first :: more, none) (first' :: more', none)
  | ended {first first' stop stop' : Token} {more more' rest rest' : List Token}
    (hfirst : AlikeInPlace keep first first') (hmore : Alikes keep more more')
    (hstop : AlikeInPlace keep stop stop') (hrest : Alikes keep rest rest')
    (hlexed : Lexed (first :: (more ++ stop :: rest)))
    (hlexed' : Lexed (first' :: (more' ++ stop' :: rest'))) :
    CutAlike keep (first :: more, some (stop, rest)) (first' :: more', some (stop', rest'))

theorem cutAlike_splitUntil (terminators : List String) (hlex : Lexed ts) (hlex' : Lexed ts')
    (h : Alikes keep ts ts') :
    CutAlike keep (splitUntil terminators 0 ts) (splitUntil terminators 0 ts') := by
  obtain ⟨hbefore, hstop⟩ := splitUntil_alike terminators 0 h
  rcases hu : splitUntil terminators 0 ts with ⟨before, stop⟩
  rcases hu' : splitUntil terminators 0 ts' with ⟨before', stop'⟩
  rw [hu, hu'] at hbefore hstop
  cases hbefore with
  | nil => exact .empty hstop
  | cons hfirst hmore =>
    cases hstop with
    | none => exact .unended
    | some hstop =>
      rw [(append_splitUntil hu).1] at hlex
      rw [(append_splitUntil hu').1] at hlex'
      exact .ended hfirst hmore hstop.1 hstop.2 hlex hlex'

/-- Alike stretches with the tokens that end them, and what follows. -/
abbrev PartsAlike (keep : Token → Bool) (a b : List Token × Token × List Token) : Prop :=
  Alikes keep a.1 b.1 ∧ AlikeInPlace keep a.2.1 b.2.1 ∧ Alikes keep a.2.2 b.2.2

theorem splitBraces_alike (depth : Nat) (h : Alikes keep ts ts') :
    Option.Rel (PartsAlike keep) (splitBraces? depth ts) (splitBraces? depth ts') := by
  induction h generalizing depth with
  | nil => exact .none
  | cons ht hrest ih =>
    rename_i t t' rest rest'
    rw [splitBraces?, splitBraces?, ht.isPunctuation, ht.isPunctuation]
    split
    · exact .some ⟨.nil, ht, hrest⟩
    · dsimp only
      generalize (if t.isPunctuation "\x7b" = true then depth + 1 else _) = inner
      have hparts := ih inner
      generalize splitBraces? inner rest = found at *
      generalize splitBraces? inner rest' = found' at *
      cases hparts with
      | none => exact .none
      | some hparts => exact .some ⟨.cons ht hparts.1, hparts.2⟩

/-- Alike argument lists, or lists that break off at the same place. -/
inductive ArgumentsAlike (keep : Token → Bool) :
    Except (Position × List Token) (List Token × Token × List Token) →
      Except (Position × List Token) (List Token × Token × List Token) → Prop
  | error (place : Position) {rest rest' : List Token} :
    Alikes keep rest rest' → ArgumentsAlike keep (.error (place, rest)) (.error (place, rest'))
  | ok {a b : List Token × Token × List Token} :
    PartsAlike keep a b → ArgumentsAlike keep (.ok a) (.ok b)

theorem breaksArguments_alike {t t' : Token} (v : Vocabulary) (h : AlikeInPlace keep t t') :
    breaksArguments v t' = breaksArguments v t := by
  simp only [breaksArguments, h.isPunctuation, h.kind, h.text]

theorem splitArguments_alike (v : Vocabulary) (depth : Nat) (last : Position)
    (h : Alikes keep ts ts') :
    ArgumentsAlike keep (splitArguments v depth last ts) (splitArguments v depth last ts') := by
  induction h generalizing depth last with
  | nil => exact .error last .nil
  | cons ht hrest ih =>
    rename_i t t' rest rest'
    rw [splitArguments, splitArguments, breaksArguments_alike v ht, ht.isPunctuation,
      ht.isPunctuation, ht.position]
    split
    · exact .error _ (.cons ht hrest)
    split
    · exact .ok ⟨.nil, ht, hrest⟩
    · dsimp only
      generalize (if t.isPunctuation "(" = true then depth + 1 else _) = inner
      have hparts := ih inner t.position
      generalize splitArguments v inner t.position rest = found at *
      generalize splitArguments v inner t.position rest' = found' at *
      cases hparts with
      | error place h => exact .error place h
      | ok h => exact .ok ⟨.cons ht h.1, h.2⟩

/-! ## Looks at alike tokens -/

/-- Two looks yield the same event but for its texts and leave alike tokens. The events are of the
same gist if the gaps before the watched tokens are kept. -/
structure StepAlike (keep : Token → Bool) (watched : List Token) (s s' : Step) : Prop where
  bare : s'.event.map bareOf = s.event.map bareOf
  gist : (∀ t ∈ watched, keep t = true) → s'.event.map gistOf = s.event.map gistOf
  rest : Alikes keep s.rest s'.rest

variable {watched rest rest' : List Token}

theorem StepAlike.found {e e' : Event} (hbare : e'.bare = e.bare)
    (hgist : (∀ t ∈ watched, keep t = true) → e'.gist = e.gist) (h : Alikes keep rest rest') :
    StepAlike keep watched (.found e rest) (.found e' rest') :=
  ⟨congrArg (fun e => some (Except.ok e)) hbare,
    fun hkeep => congrArg (fun g => some (Except.ok g)) (hgist hkeep), h⟩

theorem StepAlike.failed (cause : ScanCause) (position : Position) (h : Alikes keep rest rest') :
    StepAlike keep watched (.failed cause position rest) (.failed cause position rest') :=
  ⟨rfl, fun _ => rfl, h⟩

theorem StepAlike.passed (h : Alikes keep rest rest') :
    StepAlike keep watched ⟨none, rest⟩ ⟨none, rest'⟩ :=
  ⟨rfl, fun _ => rfl, h⟩

theorem bare_excerptOf {first stop first' stop' : Token} {more more' : List Token}
    (hfirst : AlikeInPlace keep first first') :
    (excerptOf first' more' stop').bare = (excerptOf first more stop).bare :=
  congrArg (Excerpt.mk "") hfirst.position

/-- Alike tokens are read alike as a declaration. -/
theorem reading_excerptOf {first stop first' stop' : Token} {more post more' post' : List Token}
    (hlex : Lexed (first :: (more ++ stop :: post)))
    (hlex' : Lexed (first' :: (more' ++ stop' :: post')))
    (hfirst : AlikeInPlace keep first first') (hmore : Alikes keep more more')
    (hstop : AlikeInPlace keep stop stop')
    (hkeep : ∀ t ∈ heededDeclaration first more stop, keep t = true) :
    (excerptOf first' more' stop').reading = (excerptOf first more stop).reading := by
  have htexts := Token.text_alike (Alikes.alike (.cons hfirst hmore))
  refine Prod.ext ?_ hfirst.position
  change Declaration.tokens _ = Declaration.tokens _
  by_cases hsteady : isSteady ((first :: more).map Token.text) = true
  · obtain ⟨k, cs, hlex⟩ := hlex
    obtain ⟨k', cs', hlex'⟩ := hlex'
    rw [tokens_excerptOf hlex hsteady, tokens_excerptOf hlex' (htexts ▸ hsteady), htexts]
  · rw [heededDeclaration, if_neg hsteady] at hkeep
    rw [excerptOf, excerptOf, hfirst.text,
      Token.textBefore_alike hmore.alike hstop.toAlike hkeep]

section Announced

variable {attributes attributes' : Excerpt} (position : Position)

theorem propertyStep_alike (hlex : Lexed ts) (hlex' : Lexed ts') (h : Alikes keep ts ts')
    (hplace : attributes'.bare = attributes.bare)
    (hattributes : (∀ t ∈ watched, keep t = true) → attributes' = attributes)
    (hwatched : heededMember [";"] ts ⊆ watched) :
    StepAlike keep watched (propertyStep position attributes ts)
      (propertyStep position attributes' ts') := by
  have hcut := cutAlike_splitUntil [";"] hlex hlex' h
  unfold heededMember at hwatched
  unfold propertyStep
  generalize splitUntil [";"] 0 ts = cut at *
  generalize splitUntil [";"] 0 ts' = cut' at *
  cases hcut with
  | empty hstop => exact .failed _ _ (restAfter_alike hstop)
  | unended => exact .failed _ _ .nil
  | ended hfirst hmore hstop hrest hlexed hlexed' =>
    refine .found ?_ (fun hkeep => ?_) hrest
    · rw [Event.bare, Event.bare, hplace, bare_excerptOf hfirst]
    · rw [Event.gist, Event.gist, hattributes hkeep,
        reading_excerptOf hlexed hlexed' hfirst hmore hstop fun t ht => hkeep t (hwatched ht)]

theorem functionStep_alike (hlex : Lexed ts) (hlex' : Lexed ts') (h : Alikes keep ts ts')
    (hplace : attributes'.bare = attributes.bare)
    (hattributes : (∀ t ∈ watched, keep t = true) → attributes' = attributes)
    (hwatched : heededMember [";", "\x7b"] ts ⊆ watched) :
    StepAlike keep watched (functionStep position attributes ts)
      (functionStep position attributes' ts') := by
  have hcut := cutAlike_splitUntil [";", "\x7b"] hlex hlex' h
  unfold heededMember at hwatched
  unfold functionStep
  generalize splitUntil [";", "\x7b"] 0 ts = cut at *
  generalize splitUntil [";", "\x7b"] 0 ts' = cut' at *
  cases hcut with
  | empty hstop => exact .failed _ _ (restAfter_alike hstop)
  | unended => exact .failed _ _ .nil
  | @ended first first' stop stop' more more' rest rest' hfirst hmore hstop hrest hlexed hlexed' =>
    have hfound : ∀ {tail tail'}, Alikes keep tail tail' → StepAlike keep watched
        (.found (.function position attributes (excerptOf first more stop)) tail)
        (.found (.function position attributes' (excerptOf first' more' stop')) tail') := by
      refine fun htail => .found ?_ (fun hkeep => ?_) htail
      · rw [Event.bare, Event.bare, hplace, bare_excerptOf hfirst]
      · rw [Event.gist, Event.gist, hattributes hkeep,
          reading_excerptOf hlexed hlexed' hfirst hmore hstop fun t ht => hkeep t (hwatched ht)]
    dsimp only
    rw [hstop.isPunctuation, hfirst.position]
    split
    · have hbody := splitBraces_alike 0 hrest
      generalize splitBraces? 0 rest = body at *
      generalize splitBraces? 0 rest' = body' at *
      cases hbody with
      | none => exact .failed _ _ .nil
      | some hbody => exact hfound hbody.2.2
    · exact hfound hrest

theorem dropPunctuation_alike (p : String) (h : Alikes keep ts ts') :
    Alikes keep (dropPunctuation p ts) (dropPunctuation p ts') := by
  cases h with
  | nil => exact .nil
  | cons ht hrest =>
    rw [dropPunctuation, dropPunctuation, ht.isPunctuation]
    split
    · exact hrest
    · exact .cons ht hrest

/-- Alike tokens of a body are the same enumerators. -/
theorem parseAll_alike {inside inside' tail tail' : List Token} {close close' : Token}
    (hlex : Lexed (inside ++ close :: tail)) (hlex' : Lexed (inside' ++ close' :: tail'))
    (hinside : Alikes keep inside inside') (hclose : AlikeInPlace keep close close')
    (hkeep : ∀ t ∈ heededBody inside close, keep t = true) :
    Enumerator.parseAll (textBefore inside' close') =
      Enumerator.parseAll (textBefore inside close) := by
  have htexts := Token.text_alike hinside.alike
  unfold heededBody at hkeep
  by_cases hsharp : Token.sharpFirst (inside.map Token.text) = true
  · rw [if_pos hsharp] at hkeep
    rw [Token.textBefore_alike hinside.alike hclose.toAlike hkeep]
  · rw [if_neg hsharp] at hkeep
    rw [Bool.not_eq_true] at hsharp
    obtain ⟨k, cs, hlex⟩ := hlex
    obtain ⟨k', cs', hlex'⟩ := hlex'
    rw [Enumerator.parseAll_textBefore hlex hsharp,
      Enumerator.parseAll_textBefore hlex' (by rw [htexts]; exact hsharp),
      Declaration.enumerators_alike hinside.alike hkeep]

/-- A container is read alike, if its body is. -/
theorem StepAlike.container {first stop first' stop' : Token} {more post more' post' : List Token}
    {body body' : Option String} (hlex : Lexed (first :: (more ++ stop :: post)))
    (hlex' : Lexed (first' :: (more' ++ stop' :: post')))
    (hfirst : AlikeInPlace keep first first') (hmore : Alikes keep more more')
    (hstop : AlikeInPlace keep stop stop') (hplace : attributes'.bare = attributes.bare)
    (hattributes : (∀ t ∈ watched, keep t = true) → attributes' = attributes)
    (hwatched : heededDeclaration first more stop ⊆ watched)
    (hbody : (body'.map fun _ => "") = body.map fun _ => "")
    (hparse : (∀ t ∈ watched, keep t = true) →
      body'.map Enumerator.parseAll = body.map Enumerator.parseAll)
    (htail : Alikes keep rest rest') :
    StepAlike keep watched
      (.found (.container position attributes (excerptOf first more stop) body) rest)
      (.found (.container position attributes' (excerptOf first' more' stop') body') rest') := by
  refine .found ?_ (fun hkeep => ?_) htail
  · rw [Event.bare, Event.bare, hplace, bare_excerptOf hfirst, hbody]
  · rw [Event.gist, Event.gist, hattributes hkeep, hparse hkeep,
      reading_excerptOf hlex hlex' hfirst hmore hstop fun t ht => hkeep t (hwatched ht)]

theorem containerStep_alike (hlex : Lexed ts) (hlex' : Lexed ts') (h : Alikes keep ts ts')
    (hplace : attributes'.bare = attributes.bare)
    (hattributes : (∀ t ∈ watched, keep t = true) → attributes' = attributes)
    (hwatched : heededContainer ts ⊆ watched) :
    StepAlike keep watched (containerStep position attributes ts)
      (containerStep position attributes' ts') := by
  have hcut := cutAlike_splitUntil ["\x7b", ";"] hlex hlex' h
  unfold heededContainer at hwatched
  unfold containerStep
  generalize splitUntil ["\x7b", ";"] 0 ts = cut at *
  generalize splitUntil ["\x7b", ";"] 0 ts' = cut' at *
  cases hcut with
  | empty hstop => exact .failed _ _ (restAfter_alike hstop)
  | unended => exact .failed _ _ .nil
  | @ended first first' stop stop' more more' rest rest' hfirst hmore hstop hrest hlexed hlexed' =>
    obtain ⟨hheader, hinner⟩ := List.append_subset.1 hwatched
    dsimp only at hinner ⊢
    rw [hstop.isPunctuation, hfirst.position, hfirst.text]
    split
    · exact .failed _ _ hrest
    split
    · rename_i henum
      rw [if_pos henum] at hinner
      have hbraces := splitBraces_alike 0 hrest
      rcases hb : splitBraces? 0 rest with _ | ⟨inside, close, tail⟩ <;>
        rcases hb' : splitBraces? 0 rest' with _ | ⟨inside', close', tail'⟩ <;>
        rw [hb, hb'] at hbraces
      · exact .container position hlexed hlexed' hfirst hmore hstop hplace hattributes hheader rfl
          (fun _ => rfl) .nil
      · cases hbraces
      · cases hbraces
      · rw [hb] at hinner
        cases hbraces with
        | some hparts =>
          have hbody := parseAll_alike (append_splitBraces hb ▸ hlexed.rest)
            (append_splitBraces hb' ▸ hlexed'.rest) hparts.1 hparts.2.1
          exact .container position hlexed hlexed' hfirst hmore hstop hplace hattributes hheader rfl
            (fun hkeep => congrArg some (hbody fun t ht => hkeep t (hinner ht)))
            (dropPunctuation_alike ";" hparts.2.2)
    · exact .container position hlexed hlexed' hfirst hmore hstop hplace hattributes hheader rfl
        (fun _ => rfl) hrest

end Announced

theorem markerStep_alike (v : Vocabulary) (kind : MarkerKind) (position : Position)
    {opening opening' : Token} (hopening : AlikeInPlace keep opening opening') (hlex : Lexed ts)
    (hlex' : Lexed ts') (h : Alikes keep ts ts') :
    StepAlike keep (heededMarker v kind opening ts) (markerStep v kind position opening ts)
      (markerStep v kind position opening' ts') := by
  have hparts := splitArguments_alike v 0 opening.position h
  unfold heededMarker markerStep
  rw [hopening.position]
  rcases ha : splitArguments v 0 opening.position ts with ⟨place, rest⟩ | ⟨inside, close, rest⟩
  · rw [ha] at hparts
    generalize splitArguments v 0 opening.position ts' = found at *
    cases hparts with
    | error _ hrest => exact .failed _ _ hrest
  rcases ha' : splitArguments v 0 opening.position ts' with
    ⟨place', rest'⟩ | ⟨inside', close', rest'⟩
  · rw [ha, ha'] at hparts
    cases hparts
  rw [ha, ha'] at hparts
  cases hparts with
  | ok hparts =>
    obtain ⟨hinside, hclose, hrest⟩ := hparts
    rw [append_splitArguments ha, List.append_cons] at hlex
    rw [append_splitArguments ha', List.append_cons] at hlex'
    replace hlex := hlex.of_append
    replace hlex' := hlex'.of_append
    -- All but a generated-body marker hand their attributes on.
    have hattributes : ∀ more, (∀ t ∈ inside ++ close :: more, keep t = true) →
        textBefore inside' close' = textBefore inside close := by
      intro more hkeep
      rw [List.append_cons] at hkeep
      exact Token.textBefore_alike (Alikes.alike hinside) hclose.toAlike
        fun t ht => hkeep t (List.mem_append_left _ ht)
    have hmore : ∀ more, more ⊆ inside ++ close :: more := fun more t ht =>
      List.mem_append_right _ (List.mem_cons_of_mem _ ht)
    cases kind with
    | generatedBody => exact .found rfl (fun _ => rfl) hrest
    | container =>
      exact containerStep_alike _ hlex hlex' hrest rfl
        (fun hkeep => by rw [hattributes _ hkeep]) (hmore _)
    | property =>
      exact propertyStep_alike _ hlex hlex' hrest rfl
        (fun hkeep => by rw [hattributes _ hkeep]) (hmore _)
    | function =>
      exact functionStep_alike _ hlex hlex' hrest rfl
        (fun hkeep => by rw [hattributes _ hkeep]) (hmore _)

theorem namespaceStep_alike (position : Position) (hlex : Lexed ts) (hlex' : Lexed ts')
    (h : Alikes keep ts ts') :
    StepAlike keep (heededNamespace ts) (namespaceStep position ts)
      (namespaceStep position ts') := by
  have hcut := cutAlike_splitUntil ["\x7b", ";"] hlex hlex' h
  unfold heededNamespace namespaceStep
  generalize splitUntil ["\x7b", ";"] 0 ts = cut at *
  generalize splitUntil ["\x7b", ";"] 0 ts' = cut' at *
  cases hcut with
  | unended => exact .passed .nil
  | empty hstop =>
    cases hstop with
    | none => exact .passed .nil
    | some hstop =>
      dsimp only
      rw [hstop.1.isPunctuation]
      split
      · exact .found rfl (fun _ => rfl) hstop.2
      · exact .passed hstop.2
  | @ended _ _ stop _ _ _ _ _ hfirst hmore hstop hrest =>
    dsimp only
    rw [hstop.isPunctuation]
    by_cases hbrace : stop.isPunctuation "\x7b" = true
    · rw [if_pos hbrace, if_pos hbrace, if_pos hbrace]
      refine .found ?_ (fun hkeep => ?_) hrest
      · rw [Event.bare, Event.bare, bare_excerptOf hfirst]
      · rw [excerptOf, excerptOf, hfirst.text, hfirst.position,
          Token.textBefore_alike (Alikes.alike hmore) hstop.toAlike hkeep]
    · rw [if_neg hbrace, if_neg hbrace, if_neg hbrace]
      exact .passed hrest

theorem wordStep_alike (v : Vocabulary) {t t' : Token} (ht : AlikeInPlace keep t t')
    (hkind : t.kind = .identifier) (hlex : Lexed ts) (hlex' : Lexed ts')
    (h : Alikes keep ts ts') :
    StepAlike keep (heededStep v t ts) (wordStep v t ts) (wordStep v t' ts') := by
  unfold heededStep wordStep
  rw [if_neg (not_not_intro hkind), ht.text, ht.position]
  split
  · exact namespaceStep_alike _ hlex hlex' h
  cases v.classify t.text with
  | some kind =>
    cases h with
    | nil => exact .passed .nil
    | cons hopening hmore =>
      dsimp only
      rw [hopening.isPunctuation]
      split
      · exact markerStep_alike v kind _ hopening (hlex.of_suffix (List.suffix_cons ..))
          (hlex'.of_suffix (List.suffix_cons ..)) hmore
      · exact .passed (.cons hopening hmore)
  | none =>
    cases h with
    | nil =>
      cases Visibility.ofWord? t.text <;> exact .passed .nil
    | cons hcolon hmore =>
      cases Visibility.ofWord? t.text with
      | none => exact .passed (.cons hcolon hmore)
      | some visibility =>
        dsimp only
        rw [hcolon.isPunctuation]
        split
        · exact .found rfl (fun _ => rfl) hmore
        · exact .passed (.cons hcolon hmore)

/-- One look at alike tokens. -/
theorem step_alike (v : Vocabulary) {t t' : Token} (ht : AlikeInPlace keep t t')
    (hlex : Lexed ts) (hlex' : Lexed ts') (h : Alikes keep ts ts') :
    StepAlike keep (heededStep v t ts) (step v t ts) (step v t' ts') := by
  unfold step
  rw [ht.kind, ht.isPunctuation, ht.isPunctuation, ht.position]
  split
  · exact wordStep_alike v ht ‹_› hlex hlex' h
  split
  · exact .found rfl (fun _ => rfl) h
  split
  · exact .found rfl (fun _ => rfl) h
  · exact .passed h

theorem Lexed.step {t : Token} (h : Lexed (t :: ts)) (v : Vocabulary) :
    Lexed (step v t ts).rest := by
  obtain ⟨read, hread, -⟩ := step_reports v t ts
  rw [hread] at h
  exact h.of_append

/-- Alike tokens yield the same events but for their texts, and events of the same gist if the gaps
that are heeded are kept. -/
theorem events_alike (v : Vocabulary) (hlex : Lexed ts) (hlex' : Lexed ts')
    (h : Alikes keep ts ts') :
    (events v ts').map bareOf = (events v ts).map bareOf ∧
      ((∀ t ∈ Markup.heeded v ts, keep t = true) →
        (events v ts').map gistOf = (events v ts).map gistOf) := by
  induction hn : ts.length using Nat.strong_induction_on generalizing ts ts' with
  | _ n ih =>
    cases h with
    | nil => simp only [events, List.map_nil, implies_true, and_self]
    | cons ht hrest =>
      rename_i t t' rest rest'
      have hstep := step_alike v ht (hlex.of_suffix (List.suffix_cons ..))
        (hlex'.of_suffix (List.suffix_cons ..)) hrest
      obtain ⟨hbare, hgist⟩ := ih _ (hn ▸ length_step_lt v t rest) (hlex.step v) (hlex'.step v)
        hstep.rest rfl
      rw [events, events, Markup.heeded]
      simp only [List.map_append, ← Option.toList_map, hstep.bare, hbare, true_and]
      intro hkeep
      rw [hstep.gist fun u hu => hkeep u (List.mem_append_left _ hu),
        hgist fun u hu => hkeep u (List.mem_append_right _ hu)]

end Markup

end HeaderReflection
