import HeaderReflection.Markup.Scan
import HeaderReflection.Proofs.Markup.Nesting
import HeaderReflection.Proofs.Outcome

/-!
# Looks at the tokens

Scanning is a sequence of looks, each of which reads a stretch of the tokens and yields an event, a
fault or neither.

* `step_reports`: what a look reads, and what it can yield for it.
* `flatMap_read_looks`: the stretches make up the tokens.
* `events_eq_looks`: the events are those that the looks yield.
-/

namespace HeaderReflection

open Text (Position)

/-- An event that neither opens nor closes a scope. -/
def Event.isMember : Event → Bool
  | .property .. | .function .. | .generatedBody .. | .label .. => true
  | _ => false

namespace Markup

/-! ## Cutting tokens -/

theorem append_splitBraces {depth : Nat} {ts inside tail : List Token} {close : Token}
    (h : splitBraces? depth ts = some (inside, close, tail)) : ts = inside ++ close :: tail := by
  induction ts generalizing depth inside with
  | nil => simp [splitBraces?] at h
  | cons t rest ih =>
    rw [splitBraces?] at h
    split at h
    · simp only [Option.some.injEq, Prod.mk.injEq] at h
      obtain ⟨rfl, rfl, rfl⟩ := h
      rfl
    · simp only [Option.map_eq_some_iff, Prod.mk.injEq, Prod.exists] at h
      obtain ⟨_, _, _, h, rfl, rfl, rfl⟩ := h
      rw [ih h, List.cons_append]

/-- Without an end the depth stays above the one before the opening brace. -/
theorem depthAfter_of_splitBraces_eq_none {depth : Nat} {ts : List Token}
    (h : splitBraces? depth ts = none) :
    ∃ more, Brace.depthAfter (depth + 1) (Token.braces ts) = some (more + 1) := by
  induction ts generalizing depth with
  | nil => exact ⟨depth, rfl⟩
  | cons t rest ih =>
    rw [splitBraces?] at h
    split at h
    · cases h
    · rename_i hend
      rw [Option.map_eq_none_iff] at h
      obtain ⟨more, hmore⟩ := ih h
      refine ⟨more, ?_⟩
      by_cases hopen : t.isPunctuation "\x7b" = true
      · simpa [Token.braces, Token.brace?, hopen] using hmore
      · by_cases hclose : t.isPunctuation "\x7d" = true
        · cases depth with
          | zero => simp [hclose] at hend
          | succ depth => simpa [Token.braces, Token.brace?, hopen, hclose] using hmore
        · simpa [Token.braces, Token.brace?, hopen, hclose] using hmore

theorem append_splitArguments {v : Vocabulary} {depth : Nat} {last : Position}
    {ts inside tail : List Token} {close : Token}
    (h : splitArguments v depth last ts = .ok (inside, close, tail)) :
    ts = inside ++ close :: tail := by
  induction ts generalizing depth last inside with
  | nil => simp [splitArguments] at h
  | cons t rest ih =>
    rw [splitArguments] at h
    split at h
    · cases h
    · split at h
      · simp only [Except.ok.injEq, Prod.mk.injEq] at h
        obtain ⟨rfl, rfl, rfl⟩ := h
        rfl
      · obtain ⟨⟨i, c, tl⟩, hr, hi⟩ := map_eq_ok_iff.1 h
        cases hi
        rw [ih hr, List.cons_append]

theorem suffix_splitArguments_error {v : Vocabulary} {depth : Nat} {last place : Position}
    {ts tail : List Token} (h : splitArguments v depth last ts = .error (place, tail)) :
    tail <:+ ts := by
  induction ts generalizing depth last with
  | nil =>
    simp only [splitArguments, Except.error.injEq, Prod.mk.injEq] at h
    exact h.2 ▸ List.suffix_rfl
  | cons t rest ih =>
    rw [splitArguments] at h
    split at h
    · simp only [Except.error.injEq, Prod.mk.injEq] at h
      exact h.2 ▸ List.suffix_rfl
    · split at h
      · cases h
      · dsimp only at h
        generalize hr : splitArguments v _ t.position rest = r at h
        cases r with
        | ok a => cases h
        | error e =>
          cases Except.error.inj h
          exact (ih hr).trans (List.suffix_cons t rest)

theorem append_splitUntil {terminators : List String} {depth : Nat} {ts before rest : List Token}
    {stop : Token} (h : splitUntil terminators depth ts = (before, some (stop, rest))) :
    ts = before ++ stop :: rest ∧ stop.kind = .punctuation ∧
      terminators.contains stop.text = true := by
  induction ts generalizing depth before with
  | nil => simp [splitUntil] at h
  | cons t more ih =>
    rw [splitUntil] at h
    split at h
    · rename_i hstop
      simp only [Prod.mk.injEq, Option.some.injEq] at h
      obtain ⟨rfl, rfl, rfl⟩ := h
      simp only [Bool.and_eq_true, decide_eq_true_eq] at hstop
      exact ⟨rfl, hstop.1.1, hstop.2⟩
    · simp only [Prod.mk.injEq] at h
      obtain ⟨rfl, hr⟩ := h
      obtain ⟨hmore, hkind, hterm⟩ := ih (Prod.ext rfl hr)
      exact ⟨by rw [List.cons_append, ← hmore], hkind, hterm⟩

theorem suffix_splitUntil {terminators : List String} {depth : Nat} {ts before rest : List Token}
    {stop : Token} (h : splitUntil terminators depth ts = (before, some (stop, rest))) :
    rest <:+ ts :=
  ⟨before ++ [stop], by rw [(append_splitUntil h).1, ← List.append_cons]⟩

theorem suffix_restAfter_splitUntil {terminators : List String} {depth : Nat}
    {ts before : List Token} {stop : Option (Token × List Token)}
    (h : splitUntil terminators depth ts = (before, stop)) :
    restAfter stop <:+ ts := by
  rcases stop with _ | ⟨stop, rest⟩
  · exact List.nil_suffix
  · exact suffix_splitUntil h

/-! ## What a look can do -/

/-- A look that reads these tokens can yield this: nothing, a fault, an event that concerns no
scope, or one that tells of the last token read, a brace. An enum is read with its body. -/
inductive Reports : List Token → Option (Except ScanFault Event) → Prop
  | nothing (read : List Token) : Reports read none
  | fault (read : List Token) (f : ScanFault) : Reports read (some (.error f))
  | member (read : List Token) {e : Event} : e.isMember = true → Reports read (some (.ok e))
  | openBrace {t : Token} : t.brace? = some .opening →
      Reports [t] (some (.ok (.openBrace t.position)))
  | closeBrace {t : Token} : t.brace? = some .closing →
      Reports [t] (some (.ok (.closeBrace t.position)))
  | openNamespace {header : List Token} {stop : Token} (position : Position) (name : Excerpt) :
      stop.brace? = some .opening →
        Reports (header ++ [stop]) (some (.ok (.openNamespace position name)))
  | container {header more : List Token} {first stop : Token} (position : Position)
      (attributes : Excerpt) : first.text ≠ "enum" → stop.brace? = some .opening →
        Reports (header ++ first :: more ++ [stop])
          (some (.ok (.container position attributes (excerptOf first more stop) none)))
  | closedEnum {header more body : List Token} {first stop : Token} (position : Position)
      (attributes : Excerpt) (text : String) : first.text = "enum" →
        stop.brace? = some .opening →
        Reports (header ++ first :: more ++ stop :: body)
          (some (.ok (.container position attributes (excerptOf first more stop) (some text))))
  | openEnum {header more body : List Token} {first stop : Token} (position : Position)
      (attributes : Excerpt) : first.text = "enum" → stop.brace? = some .opening →
        splitBraces? 0 body = none →
        Reports (header ++ first :: more ++ stop :: body)
          (some (.ok (.container position attributes (excerptOf first more stop) none)))

/-- A step reads tokens of the given ones, and yields what can be yielded for them and any tokens
read before. -/
def StepReports (s : Step) (ts : List Token) : Prop :=
  ∃ read, ts = read ++ s.rest ∧ ∀ header, Reports (header ++ read) s.event

theorem brace?_of_isPunctuation {t : Token} (h : t.isPunctuation "\x7b" = true) :
    t.brace? = some .opening := by
  simp [Token.brace?, h]

theorem StepReports.cons {s : Step} {ts : List Token} (h : StepReports s ts) (t : Token) :
    StepReports s (t :: ts) := by
  obtain ⟨read, hts, hr⟩ := h
  refine ⟨t :: read, by rw [hts, List.cons_append], fun header => ?_⟩
  have := hr (header ++ [t])
  rwa [List.append_assoc] at this

theorem StepReports.append {s : Step} {ts : List Token} (h : StepReports s ts)
    (before : List Token) : StepReports s (before ++ ts) := by
  induction before with
  | nil => exact h
  | cons t before ih => exact ih.cons t

theorem StepReports.failed (cause : ScanCause) (position : Position) {ts rest : List Token}
    (h : rest <:+ ts) : StepReports (.failed cause position rest) ts := by
  obtain ⟨read, hread⟩ := h
  exact ⟨read, hread.symm, fun _ => .fault _ _⟩

theorem StepReports.passed {ts rest : List Token} (h : rest <:+ ts) :
    StepReports ⟨none, rest⟩ ts := by
  obtain ⟨read, hread⟩ := h
  exact ⟨read, hread.symm, fun _ => .nothing _⟩

theorem StepReports.member {e : Event} (he : e.isMember = true) {ts rest : List Token}
    (h : rest <:+ ts) : StepReports (.found e rest) ts := by
  obtain ⟨read, hread⟩ := h
  exact ⟨read, hread.symm, fun _ => .member _ he⟩

/-! ## The kinds of steps -/

theorem propertyStep_reports (position : Position) (attributes : Excerpt) (ts : List Token) :
    StepReports (propertyStep position attributes ts) ts := by
  unfold propertyStep
  split
  · rename_i h
    exact .member rfl (suffix_splitUntil h)
  · rename_i h
    exact .failed _ _ (suffix_restAfter_splitUntil h)

theorem functionStep_reports (position : Position) (attributes : Excerpt) (ts : List Token) :
    StepReports (functionStep position attributes ts) ts := by
  unfold functionStep
  split
  · rename_i h
    have hrest := suffix_splitUntil h
    dsimp only
    split
    · split
      · rename_i inside close tail hb
        have htail : tail <:+ inside ++ close :: tail :=
          ⟨inside ++ [close], (List.append_cons ..).symm⟩
        rw [append_splitBraces hb] at hrest
        exact .member rfl (htail.trans hrest)
      · exact .failed _ _ List.nil_suffix
    · exact .member rfl hrest
  · rename_i h
    exact .failed _ _ (suffix_restAfter_splitUntil h)

/-- A terminator that is no semicolon is an opening brace. -/
theorem brace?_of_terminator {stop : Token} (hkind : stop.kind = .punctuation)
    (hterm : ["\x7b", ";"].contains stop.text = true) (hsemi : ¬stop.isPunctuation ";" = true) :
    stop.brace? = some .opening := by
  refine brace?_of_isPunctuation ?_
  simp only [Token.isPunctuation, hkind, decide_true, Bool.true_and, decide_eq_true_eq,
    List.contains_eq_mem, List.mem_cons, List.not_mem_nil, or_false] at *
  exact hterm.resolve_right hsemi

theorem suffix_dropPunctuation (p : String) (ts : List Token) : dropPunctuation p ts <:+ ts := by
  unfold dropPunctuation
  split
  · exact List.nil_suffix
  · split
    · exact List.suffix_cons ..
    · exact List.suffix_rfl

theorem containerStep_reports (position : Position) (attributes : Excerpt) (ts : List Token) :
    StepReports (containerStep position attributes ts) ts := by
  unfold containerStep
  split
  · rename_i first more stop rest h
    obtain ⟨hts, hkind, hterm⟩ := append_splitUntil h
    split
    · exact .failed _ _ (suffix_splitUntil h)
    · rename_i hsemi
      have hbrace := brace?_of_terminator hkind hterm hsemi
      dsimp only
      split
      · rename_i henum
        split
        · rename_i inside close tail hb
          obtain ⟨read, hread⟩ := suffix_dropPunctuation ";" tail
          refine ⟨first :: more ++ stop :: (inside ++ close :: read), ?_, fun header => ?_⟩
          · rw [hts, append_splitBraces hb]
            simp [Step.found, hread]
          · rw [← List.append_assoc]
            exact .closedEnum _ _ _ henum hbrace
        · rename_i hb
          have hall : ts = first :: more ++ stop :: rest ++ [] := by rw [hts, List.append_nil]
          refine ⟨_, hall, fun header => ?_⟩
          rw [← List.append_assoc]
          exact .openEnum _ _ henum hbrace hb
      · rename_i henum
        rw [List.append_cons] at hts
        refine ⟨_, hts, fun header => ?_⟩
        rw [← List.append_assoc]
        exact .container _ _ henum hbrace
  · rename_i h
    exact .failed _ _ (suffix_restAfter_splitUntil h)

theorem markerStep_reports (v : Vocabulary) (kind : MarkerKind) (position : Position)
    (opening : Token) (ts : List Token) :
    StepReports (markerStep v kind position opening ts) ts := by
  unfold markerStep
  split
  · rename_i h
    exact .failed _ _ (suffix_splitArguments_error h)
  · rename_i inside close rest h
    have hts : ts = (inside ++ [close]) ++ rest := by
      rw [append_splitArguments h, ← List.append_cons]
    dsimp only
    split
    · exact .member rfl ⟨_, hts.symm⟩
    · rw [hts]
      exact (containerStep_reports ..).append _
    · rw [hts]
      exact (propertyStep_reports ..).append _
    · rw [hts]
      exact (functionStep_reports ..).append _

theorem namespaceStep_reports (position : Position) (ts : List Token) :
    StepReports (namespaceStep position ts) ts := by
  unfold namespaceStep
  split
  · exact .passed List.nil_suffix
  · rename_i name stop rest h
    have hts : ts = (name ++ [stop]) ++ rest := by
      rw [(append_splitUntil h).1, ← List.append_cons]
    split
    · rename_i hstop
      have hbrace := brace?_of_isPunctuation hstop
      split
      · exact ⟨[stop], hts, fun header => .openNamespace _ _ hbrace⟩
      · rename_i first more
        refine ⟨first :: more ++ [stop], hts, fun header => ?_⟩
        rw [← List.append_assoc]
        exact .openNamespace _ _ hbrace
    · exact .passed ⟨_, hts.symm⟩

theorem wordStep_reports (v : Vocabulary) (t : Token) (rest : List Token) :
    StepReports (wordStep v t rest) rest := by
  unfold wordStep
  split
  · exact namespaceStep_reports ..
  · split
    · split
      · split
        · exact (markerStep_reports ..).cons _
        · exact .passed List.suffix_rfl
      · exact .passed List.suffix_rfl
    · split
      · rename_i colon more _
        split
        · exact .member rfl (List.suffix_cons colon more)
        · exact .passed List.suffix_rfl
      · exact .passed List.suffix_rfl

/-- What a look reads, and what it can yield for it. -/
theorem step_reports (v : Vocabulary) (t : Token) (rest : List Token) :
    ∃ read, t :: rest = t :: read ++ (step v t rest).rest ∧
      Reports (t :: read) (step v t rest).event := by
  unfold step
  split
  · obtain ⟨read, hrest, hr⟩ := wordStep_reports v t rest
    exact ⟨read, by rw [List.cons_append, ← hrest], hr [t]⟩
  · split
    · rename_i h
      exact ⟨[], rfl, .openBrace (brace?_of_isPunctuation h)⟩
    · split
      · rename_i h h'
        exact ⟨[], rfl, .closeBrace (by simp [Token.brace?, h, h'])⟩
      · exact ⟨[], rfl, .nothing _⟩

/-! ## The looks at a file -/

/-- A stretch of tokens and what it yields. -/
structure Look where
  read : List Token
  event : Option (Except ScanFault Event)

/-- The looks at a token sequence. -/
def looks (v : Vocabulary) : List Token → List Look
  | [] => []
  | t :: rest =>
    let s := step v t rest
    ⟨t :: rest.take (rest.length - s.rest.length), s.event⟩ :: looks v s.rest
termination_by ts => ts.length
decreasing_by exact length_step_lt v t rest

/-- The first look reads what its step leaves out. -/
theorem looks_cons (v : Vocabulary) (t : Token) (rest : List Token) :
    ∃ read, t :: rest = t :: read ++ (step v t rest).rest ∧
      Reports (t :: read) (step v t rest).event ∧
      looks v (t :: rest) = ⟨t :: read, (step v t rest).event⟩ :: looks v (step v t rest).rest := by
  obtain ⟨read, hread, hr⟩ := step_reports v t rest
  refine ⟨read, hread, hr, ?_⟩
  have hrest : rest = read ++ (step v t rest).rest := (List.cons.inj hread).2
  have hlen : rest.length - (step v t rest).rest.length = read.length := by
    have := congrArg List.length hrest
    rw [List.length_append] at this
    omega
  have htake : rest.take read.length = read := by
    conv => lhs; rw [hrest]
    exact List.take_left
  rw [looks]
  rw [hlen, htake]

/-- What a look yields is what can be yielded for the tokens it reads. -/
theorem reports_of_mem_looks {v : Vocabulary} {ts : List Token} {l : Look} (h : l ∈ looks v ts) :
    Reports l.read l.event := by
  fun_induction looks v ts with
  | case1 => cases h
  | case2 t rest s ih =>
    obtain ⟨read, -, hr, hlooks⟩ := looks_cons v t rest
    rw [looks] at hlooks
    rcases List.mem_cons.1 h with rfl | h
    · rw [(List.cons.inj hlooks).1]
      exact hr
    · exact ih h

/-- The looks read the tokens from the first to the last. -/
theorem flatMap_read_looks (v : Vocabulary) (ts : List Token) :
    (looks v ts).flatMap Look.read = ts := by
  fun_induction looks v ts with
  | case1 => rfl
  | case2 t rest s ih =>
    obtain ⟨read, hread, -, hlooks⟩ := looks_cons v t rest
    rw [looks] at hlooks
    rw [(List.cons.inj hlooks).1, List.flatMap_cons, ih]
    exact hread.symm

/-- The events of a token sequence are those of its looks. -/
theorem events_eq_looks (v : Vocabulary) (ts : List Token) :
    events v ts = (looks v ts).filterMap Look.event := by
  fun_induction looks v ts with
  | case1 => rw [events]; rfl
  | case2 t rest s ih =>
    rw [events]
    rw [ih, List.filterMap_cons]
    cases s.event <;> rfl

end Markup

end HeaderReflection
