import HeaderReflection.Proofs.Markup.Lines
import HeaderReflection.Proofs.Outline.Basic

/-!
# Events of outlines

The text of an outline is scanned as the events of its declarations, in their order.

* `Outline.yields_listText`: what the text of a file yields.
* `scan_listText`: the events of a file are those of its outlines.
-/

namespace HeaderReflection

mutual

/-- The events of a container, without their places. -/
def ContainerOutline.signs : ContainerOutline → List Sign
  | .record attributes header members =>
    .container attributes.render header.text none
      :: (MemberOutline.listSigns members ++ [.closeBrace])
  | .enum attributes header enumerators =>
    [.container attributes.render header.text (some (entriesText enumerators ++ " "))]

/-- The events of a member, without their places. -/
def MemberOutline.signs : MemberOutline → List Sign
  | .label visibility => [.label visibility]
  | .generatedBody => [.generatedBody]
  | .property attributes data => [.property attributes.render data.text]
  | .function attributes signature => [.function attributes.render signature.text]
  | .container inner => inner.signs

/-- The events of members, without their places. -/
def MemberOutline.listSigns : List MemberOutline → List Sign
  | [] => []
  | m :: ms => m.signs ++ MemberOutline.listSigns ms

end

mutual

/-- The events of an outline, without their places. -/
def Outline.signs : Outline → List Sign
  | .scope path inner =>
    .openNamespace ("::".intercalate path) :: (Outline.listSigns inner ++ [.closeBrace])
  | .container inner => inner.signs

/-- The events of outlines, without their places. -/
def Outline.listSigns : List Outline → List Sign
  | [] => []
  | o :: os => o.signs ++ Outline.listSigns os

end

/-! ## Every declaration starts a line -/

/-- The text is empty or starts with a line end. -/
def StartsLine (s : String) : Prop :=
  ∀ c ∈ s.toList.head?, c = '\n'

theorem StartsLine.isBreak {s : String} (h : StartsLine s) :
    ∀ c ∈ s.toList.head?, HeaderReflection.isBreak c = true := by
  intro c hc
  rw [h c hc]
  rfl

theorem StartsLine.append_line (line : String) (h : line.toList.head? = some '\n') (s : String) :
    StartsLine (line ++ s) := by
  intro c hc
  rw [String.toList_append, List.head?_append, h] at hc
  exact (Option.some.inj hc).symm

theorem StartsLine.append {s t : String} (h : StartsLine s) (ht : StartsLine t) :
    StartsLine (s ++ t) := by
  intro c hc
  rw [String.toList_append] at hc
  cases hs : s.toList with
  | nil =>
    rw [hs] at hc
    exact ht c hc
  | cons d ds =>
    rw [hs] at hc
    exact h c (by rw [hs]; exact hc)

theorem ContainerOutline.startsLine (c : ContainerOutline) : StartsLine c.text := by
  cases c <;>
  · simp only [ContainerOutline.text, markerText, String.append_assoc]
    exact .append_line _ (by decide) _

theorem MemberOutline.startsLine (m : MemberOutline) : StartsLine m.text := by
  cases m with
  | label v =>
    simp only [MemberOutline.text, String.append_assoc]
    exact .append_line _ (by decide) _
  | generatedBody => exact StartsLine.append_line "\n" (by decide) "GENERATED_BODY()"
  | property a x =>
    simp only [MemberOutline.text, markerText, String.append_assoc]
    exact .append_line _ (by decide) _
  | function a s =>
    simp only [MemberOutline.text, markerText, String.append_assoc]
    exact .append_line _ (by decide) _
  | container inner => exact inner.startsLine

theorem MemberOutline.listStartsLine (ms : List MemberOutline) :
    StartsLine (MemberOutline.listText ms) := by
  induction ms with
  | nil => simp [StartsLine, MemberOutline.listText]
  | cons m ms ih => exact m.startsLine.append ih

theorem Outline.startsLine (o : Outline) : StartsLine o.text := by
  cases o with
  | scope path inner =>
    simp only [Outline.text, String.append_assoc]
    exact StartsLine.append_line _ (by decide) _
  | container inner => exact inner.startsLine

theorem Outline.listStartsLine (os : List Outline) : StartsLine (Outline.listText os) := by
  induction os with
  | nil => simp [StartsLine, Outline.listText]
  | cons o os ih => exact o.startsLine.append ih

/-! ## What the texts yield -/

namespace RecordHeader

theorem marker_spec (h : RecordHeader) : IsIdentifier h.kind.marker ∧
    Vocabulary.classify {} h.kind.marker = some .container := by
  cases h.kind <;> decide

theorem head_tokens (h : RecordHeader) : h.tokens.head? ≠ some "enum" := by
  have hkind := h.ne_enum
  unfold tokens
  cases hk : h.kind with
  | enum => exact absurd hk hkind
  | «class» => simp [ContainerKind.word]
  | struct => simp [ContainerKind.word]

end RecordHeader

theorem EnumHeader.head_tokens (h : EnumHeader) : h.tokens.head? = some "enum" := by
  unfold tokens
  cases h.isScoped <;> rfl

/-- What is in braces behind a line yields its events behind that line's. -/
theorem Yields.braces {cs ds : List Char} {signs more : List Sign} (h : Yields cs signs)
    (h' : Yields ds more) (hhead : ∀ c ∈ ds.head?, isBreak c = true) :
    Yields (cs ++ (ds ++ "\n\x7d".toList)) (signs ++ (more ++ [.closeBrace])) := by
  refine h.append (h'.append yields_brace (by rintro c ⟨⟩; rfl)) fun c hc => ?_
  cases ds with
  | nil =>
    obtain rfl := Option.some.inj hc
    rfl
  | cons d ds => exact hhead c hc

mutual

theorem ContainerOutline.yields_text : ∀ c : ContainerOutline, c.Canonical →
    Yields c.text.toList c.signs
  | .record attributes header members, ⟨ha, hh, hms⟩ => by
    obtain ⟨hid, hword⟩ := header.marker_spec
    have hfront := yields_record hid hword ha.isArguments_render hh.declares header.head_tokens
    have hinner := MemberOutline.yields_listText members hms
    have hbody := hfront.braces hinner (MemberOutline.listStartsLine members).isBreak
    have hall := hbody.append yields_semicolon (by rintro c ⟨⟩; rfl)
    simpa [ContainerOutline.text, ContainerOutline.signs, markerText] using hall
  | .enum attributes header enumerators, ⟨ha, hh, hes⟩ => by
    have hall := yields_enum ha.isArguments_render hh.declares header.head_tokens hes
    simpa [ContainerOutline.text, ContainerOutline.signs, markerText] using hall

theorem MemberOutline.yields_listText : ∀ ms : List MemberOutline, MemberOutline.ListCanonical ms →
    Yields (MemberOutline.listText ms).toList (MemberOutline.listSigns ms)
  | [], _ => .nil
  | m :: ms, ⟨hm, hms⟩ => by
    have hrest := MemberOutline.yields_listText ms hms
    have hfirst : Yields m.text.toList m.signs := by
      match m, hm with
      | .label v, _ => exact yields_label v
      | .generatedBody, _ => exact yields_generatedBody
      | .property a x, ⟨ha, hx⟩ =>
        simpa [MemberOutline.text, MemberOutline.signs, markerText] using
          yields_property ha.isArguments_render hx.declares
      | .function a s, ⟨ha, hs⟩ =>
        simpa [MemberOutline.text, MemberOutline.signs, markerText] using
          yields_function ha.isArguments_render hs.declares
      | .container inner, hinner => exact ContainerOutline.yields_text inner hinner
    have hall := hfirst.append hrest (MemberOutline.listStartsLine ms).isBreak
    rwa [← String.toList_append] at hall

end

mutual

theorem Outline.yields_text : ∀ o : Outline, o.Canonical → Yields o.text.toList o.signs
  | .scope path inner, ⟨hne, hpath, hinner⟩ => by
    have hfront := yields_namespace (declares_path hne hpath)
    have hbody := hfront.braces (Outline.yields_listText inner hinner)
      (Outline.listStartsLine inner).isBreak
    simpa [Outline.text, Outline.signs] using hbody
  | .container inner, h => inner.yields_text h

/-- What the text of a file yields. -/
theorem Outline.yields_listText : ∀ os : List Outline, Outline.ListCanonical os →
    Yields (Outline.listText os).toList (Outline.listSigns os)
  | [], _ => .nil
  | o :: os, ⟨ho, hos⟩ => by
    have hall := (Outline.yields_text o ho).append (Outline.yields_listText os hos)
      (Outline.listStartsLine os).isBreak
    rwa [← String.toList_append] at hall

end

/-- The events of a file are those of its outlines. -/
theorem scan_listText {os : List Outline} (h : Outline.ListCanonical os) :
    ∃ es : List Event, Markup.scan {} (Outline.listText os) = es.map .ok ∧
      es.map Event.sign = Outline.listSigns os := by
  obtain ⟨ps, hps, hscans⟩ := Outline.yields_listText os h
  have hpieces := hps.pieces [] (by simp)
  have hend : Token.pieces false [] = [] :=
    Token.pieces_of_splitGap_eq_nil (by rw [Token.splitGap_of_none rfl])
  rw [List.append_nil, hend, List.append_nil] at hpieces
  have hstart : Token.pieces true (Outline.listText os).toList = ps := by
    cases htext : (Outline.listText os).toList with
    | nil =>
      rw [htext, hend] at hpieces
      rw [← hpieces, Token.pieces_of_splitGap_eq_nil (by rw [Token.splitGap_of_none rfl])]
    | cons c cs =>
      obtain rfl := Outline.listStartsLine os c (by rw [htext]; rfl)
      rw [Token.pieces_newline, ← htext, hpieces]
  obtain ⟨es, hes, hsigns⟩ := hscans (Token.lex (Outline.listText os)) []
    (by rw [Token.lex, Token.map_piece_lexFrom]; exact hstart)
  refine ⟨es, ?_, hsigns⟩
  rw [Markup.scan, ← List.append_nil (Token.lex _), hes, Markup.events, List.append_nil]

end HeaderReflection
