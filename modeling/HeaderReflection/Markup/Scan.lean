import HeaderReflection.Markup.Event
import HeaderReflection.Token.Basic

/-!
# Scanning for annotations

The events of a file, read off its tokens. All that concerns no event is passed over, and a marker
that is not followed by what it announces yields a fault in place of its event.

* `length_step_lt`: reading one event uses up at least one token.
-/

namespace HeaderReflection

open Text (Position)

namespace Markup

/-- The text through the token before `close`, and the gap before that. -/
def textBefore (ts : List Token) (close : Token) : String :=
  Token.spell ts ++ close.gap

/-- The tokens of a declaration as an excerpt: from the first token up to its terminator, without
the blanks at its ends. -/
def excerptOf (first : Token) (more : List Token) (terminator : Token) : Excerpt :=
  ⟨Text.trim (first.text ++ textBefore more terminator), first.position⟩

/-- The tokens inside braces of which the opening one has been read, the closing brace, and what
follows it. `depth` more braces are open inside. -/
def splitBraces? : Nat → List Token → Option (List Token × Token × List Token)
  | _, [] => none
  | depth, t :: rest =>
    if t.isPunctuation "\x7d" && depth = 0 then some ([], t, rest)
    else
      let inner := if t.isPunctuation "\x7b" then depth + 1
        else if t.isPunctuation "\x7d" then depth - 1 else depth
      (splitBraces? inner rest).map fun (inside, close, tail) => (t :: inside, close, tail)

/-- The token ends an argument list before its parenthesis: a semicolon, a brace or a marker. -/
def breaksArguments (v : Vocabulary) (t : Token) : Bool :=
  t.isPunctuation ";" || t.isPunctuation "\x7b" || t.isPunctuation "\x7d"
    || (t.kind = .identifier && (v.classify t.text).isSome)

/-- The tokens of an argument list of which the opening parenthesis has been read, the closing one,
and what follows it. A list that is broken off gives the place of the token that breaks it, or
of the last one read, and leaves that token. -/
def splitArguments (v : Vocabulary) :
    Nat → Position → List Token → Except (Position × List Token) (List Token × Token × List Token)
  | _, last, [] => .error (last, [])
  | depth, _, t :: rest =>
    if breaksArguments v t then .error (t.position, t :: rest)
    else if t.isPunctuation ")" && depth = 0 then .ok ([], t, rest)
    else
      let inner := if t.isPunctuation "(" then depth + 1
        else if t.isPunctuation ")" then depth - 1 else depth
      (splitArguments v inner t.position rest).map
        fun (inside, close, tail) => (t :: inside, close, tail)

/-- The tokens before the first of the terminators outside brackets, and the terminator with what
follows it. A closing bracket without an opening one counts for nothing. -/
def splitUntil (terminators : List String) :
    Nat → List Token → List Token × Option (Token × List Token)
  | _, [] => ([], none)
  | depth, t :: rest =>
    if t.kind = .punctuation && depth = 0 && terminators.contains t.text then ([], some (t, rest))
    else
      let inner := if t.kind ≠ .punctuation then depth
        else if ["(", "[", "\x7b"].contains t.text then depth + 1
        else if [")", "]", "\x7d"].contains t.text then depth - 1 else depth
      let r := splitUntil terminators inner rest
      (t :: r.1, r.2)

/-- What one look at the tokens yields: an event, a fault or neither, and the tokens left. -/
structure Step where
  event : Option (Except ScanFault Event)
  rest : List Token

/-- A step that yields an event. -/
def Step.found (event : Event) (rest : List Token) : Step :=
  ⟨some (.ok event), rest⟩

/-- A step that yields a fault. -/
def Step.failed (cause : ScanCause) (position : Position) (rest : List Token) : Step :=
  ⟨some (.error ⟨cause, position⟩), rest⟩

/-- What follows a terminator, or nothing. -/
def restAfter : Option (Token × List Token) → List Token
  | none => []
  | some (_, rest) => rest

/-- A data member behind its marker. -/
def propertyStep (position : Position) (attributes : Excerpt) (ts : List Token) : Step :=
  match splitUntil [";"] 0 ts with
  | (first :: more, some (stop, rest)) =>
    .found (.property position attributes (excerptOf first more stop)) rest
  | (_, stop) => .failed .unfinishedProperty position (restAfter stop)

/-- A member function behind its marker, with its body if it has one. -/
def functionStep (position : Position) (attributes : Excerpt) (ts : List Token) : Step :=
  match splitUntil [";", "\x7b"] 0 ts with
  | (first :: more, some (stop, rest)) =>
    let event := Event.function position attributes (excerptOf first more stop)
    if stop.isPunctuation "\x7b" then
      match splitBraces? 0 rest with
      | some (_, _, tail) => .found event tail
      | none => .failed .unterminatedFunctionBody first.position []
    else .found event rest
  | (_, stop) => .failed .missingFunction position (restAfter stop)

/-- The tokens without the given punctuation at their start. -/
def dropPunctuation (p : String) : List Token → List Token
  | [] => []
  | t :: rest => if t.isPunctuation p then rest else t :: rest

/-- A container behind its marker: an enum with its body, any other one up to its opening brace. -/
def containerStep (position : Position) (attributes : Excerpt) (ts : List Token) : Step :=
  match splitUntil ["\x7b", ";"] 0 ts with
  | (first :: more, some (stop, rest)) =>
    if stop.isPunctuation ";" then .failed .missingBody first.position rest
    else
      let declaration := excerptOf first more stop
      if first.text = "enum" then
        match splitBraces? 0 rest with
        | some (inside, close, tail) =>
          .found (.container position attributes declaration (some (textBefore inside close)))
            (dropPunctuation ";" tail)
        | none => .found (.container position attributes declaration none) []
      else .found (.container position attributes declaration none) rest
  | (_, stop) => .failed .missingContainer position (restAfter stop)

/-- A marker with its argument list and what it announces. -/
def markerStep (v : Vocabulary) (kind : MarkerKind) (position : Position) (opening : Token)
    (ts : List Token) : Step :=
  match splitArguments v 0 opening.position ts with
  | .error (place, rest) => .failed .unbalancedParentheses place rest
  | .ok (inside, close, rest) =>
    let attributes : Excerpt :=
      ⟨textBefore inside close, ⟨opening.position.line, opening.position.column + 1⟩⟩
    match kind with
    | .generatedBody => .found (.generatedBody position attributes) rest
    | .container => containerStep position attributes rest
    | .property => propertyStep position attributes rest
    | .function => functionStep position attributes rest

/-- What follows the word `namespace`: a namespace with its opening brace, or an alias or a
directive, which is passed over. -/
def namespaceStep (position : Position) (ts : List Token) : Step :=
  match splitUntil ["\x7b", ";"] 0 ts with
  | (_, none) => ⟨none, []⟩
  | (name, some (stop, rest)) =>
    if stop.isPunctuation "\x7b" then
      match name with
      | [] => .found (.openNamespace position ⟨"", position⟩) rest
      | first :: more => .found (.openNamespace position (excerptOf first more stop)) rest
    else ⟨none, rest⟩

/-- A word and the tokens behind it. -/
def wordStep (v : Vocabulary) (t : Token) (rest : List Token) : Step :=
  if t.text = "namespace" then namespaceStep t.position rest
  else match v.classify t.text with
    | some kind =>
      match rest with
      | opening :: more =>
        if opening.isPunctuation "(" then markerStep v kind t.position opening more
        else ⟨none, rest⟩
      | [] => ⟨none, rest⟩
    | none =>
      match Visibility.ofWord? t.text, rest with
      | some visibility, colon :: more =>
        if colon.isPunctuation ":" then .found (.label t.position visibility) more
        else ⟨none, rest⟩
      | _, _ => ⟨none, rest⟩

/-- One look at the tokens, the first of which is given. -/
def step (v : Vocabulary) (t : Token) (rest : List Token) : Step :=
  if t.kind = .identifier then wordStep v t rest
  else if t.isPunctuation "\x7b" then .found (.openBrace t.position) rest
  else if t.isPunctuation "\x7d" then .found (.closeBrace t.position) rest
  else ⟨none, rest⟩

theorem splitBraces?_length {depth : Nat} {ts inside tail : List Token} {close : Token}
    (h : splitBraces? depth ts = some (inside, close, tail)) : tail.length < ts.length := by
  induction ts generalizing depth inside with
  | nil => simp [splitBraces?] at h
  | cons t rest ih =>
    rw [splitBraces?] at h
    split at h
    · simp only [Option.some.injEq, Prod.mk.injEq] at h
      simp [h.2.2]
    · simp only [Option.map_eq_some_iff, Prod.mk.injEq, Prod.exists] at h
      obtain ⟨_, _, _, h, -, rfl, rfl⟩ := h
      exact Nat.lt_succ_of_lt (ih h)

theorem splitArguments_ok_length {v : Vocabulary} {depth : Nat} {last : Position}
    {ts inside tail : List Token} {close : Token}
    (h : splitArguments v depth last ts = .ok (inside, close, tail)) :
    tail.length < ts.length := by
  induction ts generalizing depth last inside with
  | nil => simp [splitArguments] at h
  | cons t rest ih =>
    rw [splitArguments] at h
    split at h
    · simp at h
    · split at h
      · simp only [Except.ok.injEq, Prod.mk.injEq] at h
        simp [h.2.2]
      · dsimp only at h
        generalize hr : splitArguments v _ t.position rest = r at h
        cases r with
        | error e => simp [Except.map] at h
        | ok a =>
          obtain ⟨i, c, tl⟩ := a
          simp only [Except.map, Except.ok.injEq, Prod.mk.injEq] at h
          obtain ⟨-, rfl, rfl⟩ := h
          exact Nat.lt_succ_of_lt (ih hr)

theorem splitArguments_error_length {v : Vocabulary} {depth : Nat} {last place : Position}
    {ts tail : List Token} (h : splitArguments v depth last ts = .error (place, tail)) :
    tail.length ≤ ts.length := by
  induction ts generalizing depth last with
  | nil =>
    simp only [splitArguments, Except.error.injEq, Prod.mk.injEq] at h
    simp [← h.2]
  | cons t rest ih =>
    rw [splitArguments] at h
    split at h
    · simp only [Except.error.injEq, Prod.mk.injEq] at h
      simp [← h.2]
    · split at h
      · simp at h
      · dsimp only at h
        generalize hr : splitArguments v _ t.position rest = r at h
        cases r with
        | ok a => simp [Except.map] at h
        | error e =>
          simp only [Except.map, Except.error.injEq] at h
          subst h
          exact Nat.le_succ_of_le (ih hr)

theorem restAfter_splitUntil_length (terminators : List String) (depth : Nat) (ts : List Token) :
    (restAfter (splitUntil terminators depth ts).2).length ≤ ts.length := by
  induction ts generalizing depth with
  | nil => simp [splitUntil, restAfter]
  | cons t rest ih =>
    rw [splitUntil]
    split
    · simp [restAfter]
    · exact Nat.le_succ_of_le (ih _)

theorem splitUntil_length {terminators : List String} {depth : Nat} {ts before rest : List Token}
    {stop : Token} (h : splitUntil terminators depth ts = (before, some (stop, rest))) :
    rest.length ≤ ts.length := by
  have := restAfter_splitUntil_length terminators depth ts
  rwa [h] at this

theorem propertyStep_length (position : Position) (attributes : Excerpt) (ts : List Token) :
    (propertyStep position attributes ts).rest.length ≤ ts.length := by
  unfold propertyStep
  split
  · rename_i h
    exact splitUntil_length h
  · rename_i h
    have := restAfter_splitUntil_length [";"] 0 ts
    rwa [h] at this

theorem functionStep_length (position : Position) (attributes : Excerpt) (ts : List Token) :
    (functionStep position attributes ts).rest.length ≤ ts.length := by
  unfold functionStep
  split
  · rename_i h
    have hr := splitUntil_length h
    dsimp only
    split
    · split
      · rename_i hb
        exact Nat.le_trans (Nat.le_of_lt (splitBraces?_length hb)) hr
      · exact Nat.zero_le _
    · exact hr
  · rename_i h
    have := restAfter_splitUntil_length [";", "\x7b"] 0 ts
    rwa [h] at this

theorem dropPunctuation_length (p : String) (ts : List Token) :
    (dropPunctuation p ts).length ≤ ts.length := by
  unfold dropPunctuation
  split
  · exact Nat.le_refl _
  · split <;> simp

theorem containerStep_length (position : Position) (attributes : Excerpt) (ts : List Token) :
    (containerStep position attributes ts).rest.length ≤ ts.length := by
  unfold containerStep
  split
  · rename_i h
    have hr := splitUntil_length h
    split
    · exact hr
    · dsimp only
      split
      · split
        · rename_i hb
          exact Nat.le_trans (dropPunctuation_length ..)
            (Nat.le_trans (Nat.le_of_lt (splitBraces?_length hb)) hr)
        · exact Nat.zero_le _
      · exact hr
  · rename_i h
    have := restAfter_splitUntil_length ["\x7b", ";"] 0 ts
    rwa [h] at this

theorem markerStep_length (v : Vocabulary) (kind : MarkerKind) (position : Position)
    (opening : Token) (ts : List Token) :
    (markerStep v kind position opening ts).rest.length ≤ ts.length := by
  unfold markerStep
  split
  · rename_i h
    exact splitArguments_error_length h
  · rename_i h
    have hr := Nat.le_of_lt (splitArguments_ok_length h)
    dsimp only
    split
    · exact hr
    · exact Nat.le_trans (containerStep_length ..) hr
    · exact Nat.le_trans (propertyStep_length ..) hr
    · exact Nat.le_trans (functionStep_length ..) hr

theorem namespaceStep_length (position : Position) (ts : List Token) :
    (namespaceStep position ts).rest.length ≤ ts.length := by
  unfold namespaceStep
  split
  · exact Nat.zero_le _
  · rename_i h
    have hr := splitUntil_length h
    split
    · split <;> exact hr
    · exact hr

theorem wordStep_length (v : Vocabulary) (t : Token) (rest : List Token) :
    (wordStep v t rest).rest.length ≤ rest.length := by
  unfold wordStep
  split
  · exact namespaceStep_length ..
  · split
    · split
      · split
        · exact Nat.le_succ_of_le (markerStep_length ..)
        · exact Nat.le_refl _
      · exact Nat.le_refl _
    · split
      · split
        · exact Nat.le_succ _
        · exact Nat.le_refl _
      · exact Nat.le_refl _

theorem length_step_lt (v : Vocabulary) (t : Token) (rest : List Token) :
    (step v t rest).rest.length < (t :: rest).length := by
  refine Nat.lt_succ_of_le ?_
  unfold step
  split
  · exact wordStep_length ..
  · split
    · exact Nat.le_refl _
    · split <;> exact Nat.le_refl _

/-- The events of a token sequence, with the faults in their places. -/
def events (v : Vocabulary) : List Token → List (Except ScanFault Event)
  | [] => []
  | t :: rest =>
    let s := step v t rest
    s.event.toList ++ events v s.rest
termination_by ts => ts.length
decreasing_by exact length_step_lt v t rest

/-- The events of a source text. -/
def scan (v : Vocabulary) (source : String) : List (Except ScanFault Event) :=
  events v (Token.lex source)

end Markup

end HeaderReflection
