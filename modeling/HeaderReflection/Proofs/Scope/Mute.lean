import HeaderReflection.Proofs.Markup.Gist
import HeaderReflection.Proofs.Outcome

/-!
# Mute gaps

A file yields the same containers, and drops the same ones, with blanks in the place of the comments
and directives that are not heeded. It yields the same events but for their texts also without those
that are heeded.

* `process_congr`: what is built of an event rests on its gist, but for the text that a fault
  quotes.
* `ofSource_blankMute`: comments that are not heeded have no effect.
-/

namespace HeaderReflection

open Text (Position)

/-! ## Declarations that are read alike -/

/-- The same result twice, or no result both times. -/
inductive Agrees {ε α : Type} : Except ε α → Except ε α → Prop
  | ok (a : α) : Agrees (.ok a) (.ok a)
  | error (e e' : ε) : Agrees (.error e) (.error e')

namespace Agrees

variable {ε α β : Type} {x y : Except ε α}

theorem refl (x : Except ε α) : Agrees x x := by
  cases x with
  | ok a => exact .ok a
  | error e => exact .error e e

theorem bind (h : Agrees x y) (f : α → Except ε β) : Agrees (x >>= f) (y >>= f) := by
  cases h with
  | ok a => exact .refl _
  | error e e' => exact .error e e'

theorem map (h : Agrees x y) (f : α → β) : Agrees (x.map f) (y.map f) := by
  cases h with
  | ok a => exact .ok (f a)
  | error e e' => exact .error e e'

end Agrees

namespace Declaration

theorem basesOf_agrees (text text' : String) (parts : List (List String)) :
    Agrees (basesOf text parts) (basesOf text' parts) := by
  induction parts with
  | nil => exact .ok []
  | cons part rest ih =>
    rw [basesOf, basesOf]
    split
    · exact .error _ _
    · exact ih.bind _

theorem headerOf_agrees (text text' : String) (kind : ContainerKind) (ts : List String) :
    Agrees (headerOf text kind ts) (headerOf text' kind ts) := by
  unfold headerOf
  dsimp only
  split
  · exact .error _ _
  · exact .error _ _
  · split
    · exact .ok _
    · split
      · exact .ok _
      · exact (basesOf_agrees text text' _).map _

end Declaration

/-- What a header says rests on its tokens. -/
theorem Header.parse_agrees {text text' : String}
    (h : Declaration.tokens text' = Declaration.tokens text) :
    Agrees (Header.parse text) (Header.parse text') := by
  unfold Header.parse
  rw [h]
  split
  · exact .error _ _
  · exact .error _ _
  · split
    · exact .error _ _
    · exact Declaration.headerOf_agrees _ _ _ _
    · exact Declaration.headerOf_agrees _ _ _ _

/-! ## Faults without what they quote -/

/-- The fault without the reason of a malformed declaration, which may quote the declaration. -/
def Fault.unquoted : Fault → Fault
  | .malformedDeclaration file position _ => .malformedDeclaration file position ""
  | fault => fault

/-- The frame with its fault unquoted. -/
def Frame.unquoted (f : Frame) : Frame :=
  { f with fault := f.fault.map Fault.unquoted }

/-- The builder with its faults unquoted. -/
def Builder.unquoted (b : Builder) : Builder :=
  { b with frames := b.frames.map Frame.unquoted, faults := b.faults.map Fault.unquoted }

@[simp] theorem Fault.unquoted_unquoted (f : Fault) : f.unquoted.unquoted = f.unquoted := by
  cases f <;> rfl

@[simp] theorem Frame.unquoted_unquoted (f : Frame) : f.unquoted.unquoted = f.unquoted := by
  simp [Frame.unquoted, Function.comp_def]

theorem Frame.unquoted_blame (f : Frame) (fault : Fault) :
    (f.blame fault).unquoted = (f.unquoted.blame fault).unquoted := by
  rcases f with ⟨slot, container, depth, visibility, _ | fault⟩ <;>
    simp [Frame.blame, Frame.unquoted]

theorem Frame.unquoted_blame_congr (f : Frame) {fault fault' : Fault}
    (h : fault'.unquoted = fault.unquoted) :
    (f.blame fault').unquoted = (f.blame fault).unquoted := by
  rcases f with ⟨slot, container, depth, visibility, _ | fault⟩ <;>
    simp [Frame.blame, Frame.unquoted, h]

namespace Builder

@[simp] theorem unquoted_unquoted (b : Builder) : b.unquoted.unquoted = b.unquoted := by
  simp [unquoted, Function.comp_def]

theorem scope_unquoted (b : Builder) : b.unquoted.scope = b.scope := by
  simp [scope, unquoted, Frame.unquoted, Function.comp_def]

theorem containerOf_unquoted (b : Builder) (attributes declaration : Excerpt) :
    b.unquoted.containerOf attributes declaration = b.containerOf attributes declaration := by
  unfold containerOf
  rw [scope_unquoted]
  rfl

theorem fail_unquoted (b : Builder) (fault : Fault) :
    (b.unquoted.fail fault).unquoted = (b.fail fault).unquoted := by
  rcases hf : b.frames with _ | ⟨frame, outer⟩
  · simp [fail, report, unquoted, hf, Function.comp_def]
  · simp [fail, unquoted, hf, Function.comp_def, ← Frame.unquoted_blame]

theorem openContainer_unquoted (b : Builder) (attributes declaration : Excerpt)
    (body : Option String) :
    (b.unquoted.openContainer attributes declaration body).unquoted =
      (b.openContainer attributes declaration body).unquoted := by
  unfold openContainer
  rw [containerOf_unquoted]
  rcases b.containerOf attributes declaration with ⟨c, fault⟩
  rcases fault with _ | fault <;> cases body <;>
    cases isEnumDeclaration declaration.text <;>
    simp [addEnum, openFrame, report, unquoted, Function.comp_def]

theorem addProperty_unquoted (b : Builder) (position : Position)
    (attributes declaration : Excerpt) :
    (b.unquoted.addProperty position attributes declaration).unquoted =
      (b.addProperty position attributes declaration).unquoted := by
  rcases hf : b.frames with _ | ⟨frame, outer⟩
  · simp [addProperty, report, malformed, unquoted, hf, Function.comp_def]
  · have hf' : b.unquoted.frames = frame.unquoted :: outer.map Frame.unquoted := by
      simp [unquoted, hf]
    simp only [addProperty, hf, hf', show b.unquoted.path = b.path from rfl,
      show b.unquoted.malformed = b.malformed from rfl]
    rcases parseAttributes b.path attributes with fault | parsed
    · simp [unquoted, ← Frame.unquoted_blame, Function.comp_def]
    rcases Variable.parse declaration.text with cause | ⟨type, name⟩
    · simp [unquoted, ← Frame.unquoted_blame, Function.comp_def]
    by_cases hn : name = ""
    · simp [unquoted, hn, ← Frame.unquoted_blame, Function.comp_def]
    · simp [unquoted, hn, Frame.unquoted, Function.comp_def]

theorem addMethod_unquoted (b : Builder) (position : Position)
    (attributes declaration : Excerpt) :
    (b.unquoted.addMethod position attributes declaration).unquoted =
      (b.addMethod position attributes declaration).unquoted := by
  rcases hf : b.frames with _ | ⟨frame, outer⟩
  · simp [addMethod, report, malformed, unquoted, hf, Function.comp_def]
  · have hf' : b.unquoted.frames = frame.unquoted :: outer.map Frame.unquoted := by
      simp [unquoted, hf]
    simp only [addMethod, hf, hf', show b.unquoted.path = b.path from rfl,
      show b.unquoted.malformed = b.malformed from rfl]
    rcases parseAttributes b.path attributes with fault | parsed
    · simp [unquoted, ← Frame.unquoted_blame, Function.comp_def]
    rcases Signature.parse declaration.text with cause | signature
    · simp [unquoted, ← Frame.unquoted_blame, Function.comp_def]
    · simp [unquoted, Frame.unquoted, Function.comp_def]

theorem markBody_unquoted (b : Builder) (position : Position) :
    (b.unquoted.markBody position).unquoted = (b.markBody position).unquoted := by
  rcases hf : b.frames with _ | ⟨frame, outer⟩ <;>
    simp [markBody, warn, unquoted, Frame.unquoted, hf, Function.comp_def]

theorem setVisibility_unquoted (b : Builder) (visibility : Visibility) :
    (b.unquoted.setVisibility visibility).unquoted = (b.setVisibility visibility).unquoted := by
  rcases hf : b.frames with _ | ⟨frame, outer⟩
  · simp [setVisibility, unquoted, hf, Function.comp_def]
  · by_cases hd : frame.depth = b.depth <;>
      simp [setVisibility, unquoted, Frame.unquoted, hf, hd, Function.comp_def]

theorem complete_unquoted (b : Builder) (frame : Frame) :
    (b.unquoted.complete frame.unquoted).unquoted = (b.complete frame).unquoted := by
  rcases frame with ⟨slot, container, depth, visibility, _ | fault⟩
  · cases hbody : container.generatedBodyLine <;>
      simp [complete, warn, unquoted, Frame.unquoted, hbody, Function.comp_def]
  · simp [complete, report, unquoted, Frame.unquoted, Function.comp_def]

theorem closeNamespace_unquoted (b : Builder) :
    b.unquoted.closeNamespace.unquoted = b.closeNamespace.unquoted := by
  rcases hn : b.namespaces with _ | ⟨ns, outer⟩
  · simp [closeNamespace, unquoted, hn, Function.comp_def]
  · by_cases hd : ns.depth = b.depth <;>
      simp [closeNamespace, unquoted, hn, hd, Function.comp_def]

theorem closeScope_unquoted (b : Builder) :
    b.unquoted.closeScope.unquoted = b.closeScope.unquoted := by
  rcases hf : b.frames with _ | ⟨frame, outer⟩
  · simp only [closeScope, hf, show b.unquoted.frames = [] by simp [unquoted, hf],
      closeNamespace_unquoted]
  · have hf' : b.unquoted.frames = frame.unquoted :: outer.map Frame.unquoted := by
      simp [unquoted, hf]
    simp only [closeScope, hf, hf']
    change (if frame.depth = b.depth then _ else _ : Builder).unquoted = _
    split
    · exact complete_unquoted { b with frames := outer } frame
    · exact closeNamespace_unquoted b

/-- A fault that is left unquoted does not tell in what is built later. -/
theorem take_unquoted (b : Builder) (event : Except ScanFault Event) :
    (b.unquoted.take event).unquoted = (b.take event).unquoted := by
  rcases event with fault | event
  · exact fail_unquoted b _
  cases event with
  | container position attributes declaration body => exact openContainer_unquoted b _ _ _
  | property position attributes declaration => exact addProperty_unquoted b _ _ _
  | function position attributes declaration => exact addMethod_unquoted b _ _ _
  | generatedBody position attributes => exact markBody_unquoted b _
  | label position visibility => exact setVisibility_unquoted b _
  | openNamespace position name => simp [take, process, unquoted, Function.comp_def]
  | openBrace position => simp [take, process, unquoted, Function.comp_def]
  | closeBrace position =>
    exact congrArg (fun c : Builder => { c with depth := c.depth - 1 }) (closeScope_unquoted b)

/-! ## Events of the same gist -/

variable (b : Builder) (position : Position) (attributes : Excerpt)
  {declaration declaration' : Excerpt}

theorem malformed_unquoted (cause cause' : DeclarationCause) :
    (b.malformed position cause').unquoted = (b.malformed position cause).unquoted := rfl

theorem containerOf_congr (h : declaration'.reading = declaration.reading) :
    (b.containerOf attributes declaration').1 = (b.containerOf attributes declaration).1 ∧
      (b.containerOf attributes declaration').2.map Fault.unquoted =
        (b.containerOf attributes declaration).2.map Fault.unquoted := by
  obtain ⟨htokens, hposition⟩ := Prod.mk.inj h
  have henum : isEnumDeclaration declaration'.text = isEnumDeclaration declaration.text := by
    simp only [isEnumDeclaration, htokens]
  have hagrees := Header.parse_agrees htokens
  unfold containerOf
  rw [henum, hposition]
  generalize Header.parse declaration.text = parsed at *
  generalize Header.parse declaration'.text = parsed' at *
  cases hagrees with
  | ok header => exact ⟨rfl, rfl⟩
  | error cause cause' => exact ⟨rfl, rfl⟩

theorem openContainer_congr (h : declaration'.reading = declaration.reading)
    {body body' : Option String}
    (hbody : body'.map Enumerator.parseAll = body.map Enumerator.parseAll) :
    (b.openContainer attributes declaration' body').unquoted =
      (b.openContainer attributes declaration body).unquoted := by
  obtain ⟨hc, hfault⟩ := containerOf_congr b attributes h
  have henum : isEnumDeclaration declaration'.text = isEnumDeclaration declaration.text := by
    simp only [isEnumDeclaration, (Prod.mk.inj h).1]
  unfold openContainer
  rw [henum]
  generalize b.containerOf attributes declaration = found at *
  generalize b.containerOf attributes declaration' = found' at *
  obtain ⟨c, fault⟩ := found
  obtain ⟨c', fault'⟩ := found'
  obtain rfl : c' = c := hc
  cases fault with
  | none =>
    obtain rfl : fault' = none := by simpa using hfault
    rcases body with _ | body <;> rcases body' with _ | body' <;> simp only [Option.map_none,
      Option.map_some, Option.some.injEq, reduceCtorEq] at hbody
    · rfl
    · simp [addEnum, hbody]
  | some fault =>
    obtain ⟨fault', rfl, hquote⟩ := Option.map_eq_some_iff.1 hfault
    cases isEnumDeclaration declaration.text <;>
      simp [addEnum, openFrame, report, unquoted, Frame.unquoted, hquote]

theorem addProperty_congr (h : declaration'.reading = declaration.reading) :
    (b.addProperty position attributes declaration').unquoted =
      (b.addProperty position attributes declaration).unquoted := by
  obtain ⟨htokens, hposition⟩ := Prod.mk.inj h
  have hparse : Variable.parse declaration'.text = Variable.parse declaration.text := by
    simp only [Variable.parse, htokens]
  unfold addProperty
  rw [hparse, hposition]
  rcases b.frames with _ | ⟨frame, outer⟩
  · rfl
  rcases parseAttributes b.path attributes with fault | parsed
  · rfl
  rcases Variable.parse declaration.text with cause | ⟨type, name⟩
  · rfl
  by_cases hn : name = ""
  · simp only [hn, if_true, unquoted, List.map_cons]
    rw [frame.unquoted_blame_congr (b.malformed_unquoted _ _ _)]
  · simp only [hn, if_false]

theorem addMethod_congr (h : declaration'.reading = declaration.reading) :
    (b.addMethod position attributes declaration').unquoted =
      (b.addMethod position attributes declaration).unquoted := by
  obtain ⟨htokens, hposition⟩ := Prod.mk.inj h
  have hparse : Signature.parse declaration'.text = Signature.parse declaration.text := by
    simp only [Signature.parse, htokens]
  unfold addMethod
  rw [hparse, hposition]

/-- What is built of an event rests on its gist, but for the text that a fault quotes. -/
theorem process_congr {e e' : Event} (h : e'.gist = e.gist) :
    (b.process e').unquoted = (b.process e).unquoted := by
  cases e with
  | container position attributes declaration body =>
    cases e' <;> simp only [Event.gist, reduceCtorEq, Gist.container.injEq] at h
    obtain ⟨-, rfl, hreading, hbody⟩ := h
    exact openContainer_congr b _ hreading hbody
  | property position attributes declaration =>
    cases e' <;> simp only [Event.gist, reduceCtorEq, Gist.property.injEq] at h
    obtain ⟨rfl, rfl, hreading⟩ := h
    exact addProperty_congr b _ _ hreading
  | function position attributes declaration =>
    cases e' <;> simp only [Event.gist, reduceCtorEq, Gist.function.injEq] at h
    obtain ⟨rfl, rfl, hreading⟩ := h
    exact addMethod_congr b _ _ hreading
  | generatedBody position attributes =>
    cases e' <;> simp only [Event.gist, reduceCtorEq, Gist.generatedBody.injEq] at h
    rw [h]
    rfl
  | label position visibility =>
    cases e' <;> simp only [Event.gist, reduceCtorEq, Gist.label.injEq] at h
    rw [h.1, h.2]
  | openNamespace position name =>
    cases e' <;> simp only [Event.gist, reduceCtorEq, Gist.openNamespace.injEq] at h
    rw [h.1, h.2]
  | openBrace position =>
    cases e' <;> simp only [Event.gist, reduceCtorEq, Gist.openBrace.injEq] at h
    rfl
  | closeBrace position =>
    cases e' <;> simp only [Event.gist, reduceCtorEq, Gist.closeBrace.injEq] at h
    rfl

theorem take_congr {e e' : Except ScanFault Event} (h : gistOf e' = gistOf e) :
    (b.take e').unquoted = (b.take e).unquoted := by
  rcases e with fault | e <;> rcases e' with fault' | e'
  · rw [Except.error.inj h]
  · cases h
  · cases h
  · exact process_congr b (Except.ok.inj h)

/-- What is built of a sequence of events rests on their gist. -/
theorem takeAll_congr {es es' : List (Except ScanFault Event)} (h : es'.map gistOf = es.map gistOf)
    {b b' : Builder} (hb : b'.unquoted = b.unquoted) :
    (b'.takeAll es').unquoted = (b.takeAll es).unquoted := by
  induction es generalizing es' b b' with
  | nil =>
    rw [List.map_eq_nil_iff.1 h]
    exact hb
  | cons e es ih =>
    obtain ⟨e', es', rfl, he, hes⟩ := List.map_eq_cons_iff.1 h
    refine ih hes ?_
    rw [take_congr b' he, ← take_unquoted, hb, take_unquoted]

theorem unclosed_unquoted (b : Builder) (frame : Frame) :
    (b.unquoted.unclosed frame.unquoted).map Fault.unquoted =
      (b.unclosed frame).map Fault.unquoted := by
  rcases frame with ⟨slot, container, depth, visibility, _ | fault⟩ <;>
    simp [unclosed, Frame.unquoted, unquoted]

theorem finish_unquoted (b : Builder) : b.unquoted.finish.faults.map Fault.unquoted =
    b.finish.faults.map Fault.unquoted := by
  have hopen : (b.unquoted.frames.reverse.flatMap b.unquoted.unclosed).map Fault.unquoted =
      (b.frames.reverse.flatMap b.unclosed).map Fault.unquoted := by
    have hframes : b.unquoted.frames = b.frames.map Frame.unquoted := rfl
    rw [hframes, ← List.map_reverse, List.flatMap_map, List.map_flatMap, List.map_flatMap]
    simp only [unclosed_unquoted]
  simp only [finish, List.map_append, hopen]
  simp [unquoted, Function.comp_def]

/-- What a file yields is told by the builder at its end, but for the texts that faults quote. -/
theorem finish_congr {b b' : Builder} (h : b'.unquoted = b.unquoted) :
    b'.finish.containers = b.finish.containers ∧ b'.finish.warnings = b.finish.warnings ∧
      b'.finish.faults.map Fault.unquoted = b.finish.faults.map Fault.unquoted := by
  refine ⟨?_, ?_, by rw [← finish_unquoted b', h, finish_unquoted b]⟩
  · change b'.unquoted.slots.filterMap id = b.unquoted.slots.filterMap id
    rw [h]
  · change b'.unquoted.warnings = b.unquoted.warnings
    rw [h]

end Builder

/-! ## Blanked files -/

/-- A source text with blanks in the place of chosen comments and directives, but for those before
tokens that keep their gaps. -/
def Markup.blank (keep : Token → Bool) (chosen : Token.Cursor → Bool) (source : String) : String :=
  String.ofList (Token.blankFrom keep chosen .start source.toList)

/-- A source text with blanks in the place of chosen comments and directives, but for the heeded
ones. -/
def Markup.blankMute (v : Vocabulary) (chosen : Token.Cursor → Bool) (source : String) : String :=
  Markup.blank (fun t => (Markup.heeded v (Token.lex source)).contains t) chosen source

theorem Markup.alikes_blank (keep : Token → Bool) (chosen : Token.Cursor → Bool)
    (source : String) :
    Markup.Alikes keep (Token.lex source) (Token.lex (Markup.blank keep chosen source)) := by
  rw [Token.lex, Token.lex, Markup.blank, String.toList_ofList]
  exact Token.alike_lexFrom_blankFrom keep chosen rfl (.refl _ _)

/-- Comments and directives that are not heeded have no effect on the containers of a file, nor on
what drops them. Neither they nor the heeded ones trigger or hide a marker. -/
theorem FileModel.ofSource_blankMute (v : Vocabulary) (path fileId source : String)
    (chosen : Token.Cursor → Bool) :
    let before := FileModel.ofSource v path fileId source
    let after := FileModel.ofSource v path fileId (Markup.blankMute v chosen source)
    (after.containers = before.containers ∧ after.warnings = before.warnings ∧
      after.faults.map Fault.unquoted = before.faults.map Fault.unquoted) ∧
    (Markup.scan v (Markup.blank (fun _ => false) chosen source)).map bareOf =
      (Markup.scan v source).map bareOf := by
  constructor
  · have hgist := (Markup.events_alike v ⟨_, _, rfl⟩ ⟨_, _, rfl⟩
      (Markup.alikes_blank _ chosen source)).2 fun t ht => List.contains_iff_mem.2 ht
    exact Builder.finish_congr (Builder.takeAll_congr hgist rfl)
  · exact (Markup.events_alike v ⟨_, _, rfl⟩ ⟨_, _, rfl⟩ (Markup.alikes_blank _ chosen source)).1

/-- An enum with a comment in a value. -/
def notedEnum : String :=
  "ENUM() enum E \x7b A = 1 /* c */ + 2 \x7d;"

/-- The values of a file's enumerators. -/
def FileModel.values (m : FileModel) : List (Option String) :=
  m.containers.flatMap fun c => c.enumerators.map (·.value)

/-- A value is kept as it is written, with its comments. -/
theorem values_notedEnum :
    Markup.blank (fun _ => false) (fun _ => true) notedEnum =
        "ENUM() enum E \x7b A = 1         + 2 \x7d;" ∧
      (FileModel.ofSource {} "a.h" "a.h" notedEnum).values = [some "1 /* c */ + 2"] ∧
      ¬∀ (v : Vocabulary) (path fileId source : String) (chosen : Token.Cursor → Bool),
        (FileModel.ofSource v path fileId (Markup.blank (fun _ => false) chosen source)).containers =
          (FileModel.ofSource v path fileId source).containers := by
  have hblank : Markup.blank (fun _ => false) (fun _ => true) notedEnum =
      "ENUM() enum E \x7b A = 1         + 2 \x7d;" := by decide +kernel
  have hvalues : (FileModel.ofSource {} "a.h" "a.h" notedEnum).values =
      [some "1 /* c */ + 2"] := by decide +kernel
  refine ⟨hblank, hvalues, fun h => ?_⟩
  have hsame : (FileModel.ofSource {} "a.h" "a.h"
      (Markup.blank (fun _ => false) (fun _ => true) notedEnum)).values =
        [some "1 /* c */ + 2"] := by
    rw [FileModel.values, h, ← FileModel.values, hvalues]
  have hother : (FileModel.ofSource {} "a.h" "a.h"
      "ENUM() enum E \x7b A = 1         + 2 \x7d;").values = [some "1         + 2"] := by
    decide +kernel
  rw [hblank, hother] at hsame
  revert hsame
  decide

end HeaderReflection
