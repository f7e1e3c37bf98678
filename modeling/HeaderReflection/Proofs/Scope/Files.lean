import HeaderReflection.Proofs.Scope.Closing
import HeaderReflection.Proofs.Scope.Unterminated

/-!
# Scopes of a file

* `scopes_close_iff`: all scopes of a file close at the partners of their braces and no container is
  reported as unterminated, if and only if every scope is answered and no enum lacks its body. In a
  text of nested braces it is so if no look reads a brace without its partner in silence.
* `unterminated_of_swallowed_brace`: a data member without a semicolon takes the brace behind it.
-/

namespace HeaderReflection

open Markup (Look looks Reports)

/-- The builder at the start of a file. -/
def Builder.start (path fileId : String) : Builder := { path, fileId }

/-- Every scope of a file closes at the partner of its opening brace. -/
def ScopesClose (v : Vocabulary) (path fileId source : String) : Prop :=
  ∀ before l behind, looks v (Token.lex source) = before ++ l :: behind → l.opensScope = true →
    ClosesAtPartner ((Builder.start path fileId).afterLooks before) l behind

/-- No container of a file is reported as never closed. -/
def NoneUnterminated (v : Vocabulary) (path fileId source : String) : Prop :=
  ∀ f ∈ (FileModel.ofSource v path fileId source).faults, f.isUnterminated = false

/-- Every scope of a file is answered. -/
def ScopesAnswered (v : Vocabulary) (source : String) : Prop :=
  ∀ before l behind, looks v (Token.lex source) = before ++ l :: behind → l.opensScope = true →
    Answered behind

/-- Every enum of a file comes with its body, unless another fault is reported for it. -/
def EnumsComplete (v : Vocabulary) (path fileId source : String) : Prop :=
  ∀ before l behind position attributes declaration,
    looks v (Token.lex source) = before ++ l :: behind →
    l.event = some (.ok (.container position attributes declaration none)) →
    isEnumDeclaration declaration.text = true →
      (((Builder.start path fileId).afterLooks before).containerOf attributes declaration).2 ≠ none

/-- The look reports every brace that it reads without its partner. -/
def Markup.Look.Faithful (l : Look) : Prop :=
  (l.brace? = none → Brace.Nested (Token.braces l.read)) ∧
  (l.brace? = some .opening →
    l.read.getLast?.bind Token.brace? = some .opening ∧
      Brace.Nested (Token.braces l.read.dropLast))

instance (l : Look) : Decidable l.Faithful :=
  inferInstanceAs (Decidable (_ ∧ _))

theorem Markup.Look.Faithful.opening {l : Look} (h : l.Faithful) (hl : l.brace? = some .opening) :
    ∃ header brace, l.read = header ++ [brace] ∧ brace.brace? = some .opening ∧
      Brace.Nested (Token.braces header) := by
  obtain ⟨hlast, hnested⟩ := h.2 hl
  obtain ⟨brace, hbrace, hopening⟩ := Option.bind_eq_some_iff.1 hlast
  obtain ⟨header, hread⟩ := List.getLast?_eq_some_iff.1 hbrace
  rw [hread, List.dropLast_concat] at hnested
  exact ⟨header, brace, hread, hopening, hnested⟩

/-! ## The brace of a scope -/

/-- What the looks of a file read stands in the file. -/
theorem lex_eq_append {v : Vocabulary} {source : String} {before behind : List Look} {l : Look}
    (h : looks v (Token.lex source) = before ++ l :: behind) :
    Token.lex source = before.flatMap Look.read ++ (l.read ++ behind.flatMap Look.read) := by
  have := Markup.flatMap_read_looks v (Token.lex source)
  rw [h, List.flatMap_append, List.flatMap_cons] at this
  exact this.symm

theorem opensScope_of_isMember {e : Event} (h : e.isMember = true) : e.opensScope = false := by
  cases e with
  | container position attributes declaration body => cases h
  | openNamespace position name => cases h
  | _ => rfl

theorem opening_of_reports {pre read post : List Token} {e : Event} {source : String}
    (hsource : Token.lex source = pre ++ (read ++ post)) (hr : Reports read (some (.ok e)))
    (he : e.opensScope = true) :
    ∃ header brace, read = header ++ [brace] ∧ brace.brace? = some .opening := by
  have hlex : ∀ {header more body : List Token} {first stop : Token},
      read = header ++ first :: more ++ stop :: body → first.text = "enum" →
        isEnumDeclaration (Markup.excerptOf first more stop).text = true := by
    intro header more body first stop hread henum
    have hplace : Token.lexFrom .start source.toList =
        (pre ++ header) ++ (first :: more ++ stop :: (body ++ post)) := by
      rw [show Token.lexFrom .start source.toList = Token.lex source from rfl, hsource, hread]
      simp
    exact Markup.isEnumDeclaration_excerptOf hplace henum
  cases hr with
  | member _ h => cases (opensScope_of_isMember h).symm.trans he
  | openNamespace _ _ h => exact ⟨_, _, rfl, h⟩
  | container _ _ _ h => exact ⟨_, _, rfl, h⟩
  | closedEnum _ _ _ henum _ => simp [Event.opensScope, hlex rfl henum] at he
  | openEnum _ _ henum _ _ => simp [Event.opensScope, hlex rfl henum] at he
  | _ => cases he

/-- The look that opens a scope ends with the scope's brace. -/
theorem opening_of_opensScope {v : Vocabulary} {source : String} {before behind : List Look}
    {l : Look} (h : looks v (Token.lex source) = before ++ l :: behind)
    (hl : l.opensScope = true) :
    ∃ header brace, l.read = header ++ [brace] ∧ brace.brace? = some .opening := by
  obtain ⟨e, he, hopens, -⟩ := look_opensScope hl ⟨0, [], [], 0⟩
  have hr := Markup.reports_of_mem_looks (h ▸ List.mem_append_right before List.mem_cons_self)
  rw [he] at hr
  exact opening_of_reports (lex_eq_append h) hr hopens

/-! ## Faithful looks -/

/-- Behind faithful looks that close one brace too many, the first such brace answers. -/
theorem answered_of_faithful {ls : List Look} {depth more : Nat}
    (hls : ∀ l ∈ ls, l.Faithful ∧ Reports l.read l.event)
    (h : Brace.depthAfter (depth + (more + 1)) (Token.braces (ls.flatMap Look.read)) = some 0) :
    ∃ during last later position, ls = during ++ last :: later ∧
      last.event = some (.ok (.closeBrace position)) ∧
      Brace.depthAfter depth (Token.braces (during.flatMap Look.read)) = some 0 ∧
      Brace.depthAfter depth (during.filterMap Look.brace?) = some 0 := by
  induction ls generalizing depth with
  | nil => simp [Token.braces] at h
  | cons l ls ih =>
    obtain ⟨hfaithful, hr⟩ := hls l List.mem_cons_self
    have hrest : ∀ m ∈ ls, m.Faithful ∧ Reports m.read m.event :=
      fun m hm => hls m (List.mem_cons_of_mem _ hm)
    rw [List.flatMap_cons, Token.braces_append] at h
    rcases hb : l.brace? with _ | _ | _
    · have hnested := hfaithful.1 hb
      rw [hnested.depthAfter_append] at h
      obtain ⟨during, last, later, position, rfl, hlast, htokens, hevents⟩ := ih hrest h
      refine ⟨l :: during, last, later, position, rfl, hlast, ?_, ?_⟩
      · rw [List.flatMap_cons, Token.braces_append, hnested.depthAfter_append, htokens]
      · rw [List.filterMap_cons, hb]
        exact hevents
    · obtain ⟨header, brace, hread, hbrace, hnested⟩ := hfaithful.opening hb
      have hbraces : ∀ d us, Brace.depthAfter d (Token.braces l.read ++ us) =
          Brace.depthAfter (d + 1) us := by
        intro d us
        rw [hread, Token.braces_append, List.append_assoc, hnested.depthAfter_append]
        simp [Token.braces, hbrace]
      rw [hbraces, Nat.add_right_comm] at h
      obtain ⟨during, last, later, position, rfl, hlast, htokens, hevents⟩ := ih hrest h
      refine ⟨l :: during, last, later, position, rfl, hlast, ?_, ?_⟩
      · rw [List.flatMap_cons, Token.braces_append, hbraces, htokens]
      · rw [List.filterMap_cons, hb]
        exact hevents
    · obtain ⟨position, hevent⟩ := look_brace?_eq_closing_iff.1 hb
      rw [hevent] at hr
      obtain ⟨t, hread, ht⟩ := read_closeBrace hr
      have hbraces : ∀ d us, Brace.depthAfter (d + 1) (Token.braces l.read ++ us) =
          Brace.depthAfter d us := by
        intro d us
        rw [hread]
        simp [Token.braces, ht]
      cases depth with
      | zero => exact ⟨[], l, ls, position, rfl, hevent, rfl, rfl⟩
      | succ depth =>
        rw [Nat.add_right_comm, hbraces] at h
        obtain ⟨during, last, later, place, rfl, hlast, htokens, hevents⟩ := ih hrest h
        refine ⟨l :: during, last, later, place, rfl, hlast, ?_, ?_⟩
        · rw [List.flatMap_cons, Token.braces_append, hbraces, htokens]
        · rw [List.filterMap_cons, hb]
          exact hevents

/-- In a text of nested braces faithful looks answer every scope. -/
theorem scopesAnswered_of_faithful {v : Vocabulary} {source : String}
    (hnested : Brace.Nested (Token.braces (Token.lex source)))
    (hfaithful : ∀ l ∈ looks v (Token.lex source), l.Faithful) : ScopesAnswered v source := by
  intro before l behind h hl
  obtain ⟨header, brace, hread, hbrace⟩ := opening_of_opensScope h hl
  have hls : ∀ m ∈ behind, m.Faithful ∧ Reports m.read m.event := fun m hm => by
    have hmem : m ∈ looks v (Token.lex source) := by
      rw [h]
      exact List.mem_append_right _ (List.mem_cons_of_mem _ hm)
    exact ⟨hfaithful m hmem, Markup.reports_of_mem_looks hmem⟩
  unfold Brace.Nested at hnested
  rw [lex_eq_append h, hread, List.append_assoc, ← List.append_assoc, Token.braces_append,
    Token.braces_append, Brace.depthAfter_append] at hnested
  obtain ⟨depth, -, hdepth⟩ := Option.bind_eq_some_iff.1 hnested
  have hbehind : Brace.depthAfter (0 + (depth + 1))
      (Token.braces (behind.flatMap Look.read)) = some 0 := by
    rw [Nat.zero_add]
    simpa [Token.braces, hbrace] using hdepth
  exact answered_of_faithful hls hbehind

/-- No faithful look is an enum without its body. -/
theorem not_faithful_of_bodiless {l : Look} {position : Text.Position}
    {attributes declaration : Excerpt} (hr : Reports l.read l.event)
    (he : l.event = some (.ok (.container position attributes declaration none)))
    (henum : isEnumDeclaration declaration.text = true) : ¬l.Faithful := by
  have hb : l.brace? = none := by
    unfold Look.brace?
    rw [he]
    simp [Event.brace?, henum]
  rw [he] at hr
  intro hfaithful
  have hnested := hfaithful.1 hb
  generalize l.read = read at hr hnested
  unfold Brace.Nested at hnested
  cases hr with
  | member _ h => cases h
  | container _ _ _ hstop =>
    rw [Token.braces_append, Brace.depthAfter_append] at hnested
    obtain ⟨depth, -, hdepth⟩ := Option.bind_eq_some_iff.1 hnested
    simp [Token.braces, hstop] at hdepth
  | openEnum _ _ _ hstop hsplit =>
    rw [Token.braces_append, Brace.depthAfter_append] at hnested
    obtain ⟨depth, -, hdepth⟩ := Option.bind_eq_some_iff.1 hnested
    obtain ⟨more, hmore⟩ := Markup.depthAfter_of_splitBraces_eq_none hsplit
    have hopen := Brace.depthAfter_add hmore depth
    rw [Nat.zero_add, Nat.add_comm 1] at hopen
    simp only [Token.braces, List.filterMap_cons, hstop, Brace.depthAfter_opening] at hdepth hopen
    rw [hopen] at hdepth
    exact absurd (Option.some.inj hdepth) (by omega)

/-! ## The end of a file -/

theorem suffix_look {l : Look} (hl : l.opensScope = false) (s : Scopes) :
    (s.look l).frames <:+ s.frames := by
  unfold Scopes.look
  split
  · rename_i e he
    unfold Look.opensScope at hl
    rw [he] at hl
    cases e with
    | container position attributes declaration body =>
      simp only [Event.opensScope, Bool.not_eq_false'] at hl
      simp only [Scopes.after, hl, if_true]
      exact List.suffix_rfl
    | openNamespace position name => cases hl
    | closeBrace position => exact s.suffix_closeScope.1
    | _ => exact List.suffix_rfl
  · exact List.suffix_rfl

/-- Behind looks whose scopes are all answered no container is open but those open before. -/
theorem suffix_run_of_answered {s : Scopes} (hs : s.Sound) {ls : List Look}
    (h : ∀ before l behind, ls = before ++ l :: behind → l.opensScope = true → Answered behind) :
    (s.run ls).frames <:+ s.frames := by
  induction hn : ls.length using Nat.strong_induction_on generalizing s ls with
  | _ n ih =>
    cases ls with
    | nil => exact List.suffix_rfl
    | cons l ls =>
      rw [Scopes.run_cons]
      cases hl : l.opensScope with
      | false =>
        refine (ih ls.length (by simp [← hn]) (hs.look l) (fun before m behind hls => ?_) rfl).trans
          (suffix_look hl s)
        exact h (l :: before) m behind (by rw [hls]; rfl)
      | true =>
        obtain ⟨during, last, later, position, rfl, hlast, -, hevents⟩ := h [] l ls rfl hl
        have hbase := (hs.look l).bounded
        obtain ⟨habove, hdepth⟩ := above_run hbase (.refl _) rfl hevents
        have hclosed := look_closing hs.bounded hl ((hs.look l).run during).bounded habove hdepth
          (look_brace?_eq_closing_iff.2 ⟨position, hlast⟩)
        rw [Scopes.run_append, Scopes.run_cons, ← hclosed.1]
        refine ih later.length ?_ (((hs.look l).run during).look last)
          (fun before m behind hls => ?_) rfl
        · simp only [List.length_cons, List.length_append] at hn
          omega
        · exact h (l :: during ++ last :: before) m behind (by rw [hls]; simp)

/-- What a file yields is what its looks yield. -/
theorem ofSource_eq (v : Vocabulary) (path fileId source : String) :
    FileModel.ofSource v path fileId source =
      ((Builder.start path fileId).afterLooks (looks v (Token.lex source))).finish := by
  unfold FileModel.ofSource FileModel.ofEvents Markup.scan Builder.afterLooks
  rw [Markup.events_eq_looks]
  rfl

theorem sound_afterLooks (path fileId : String) (ls : List Look) :
    ((Builder.start path fileId).afterLooks ls).scopes.Sound := by
  rw [Builder.scopes_afterLooks]
  exact Scopes.Sound.start.run ls

/-- Scopes close at their partners if and only if they are answered. -/
theorem scopesClose_iff (v : Vocabulary) (path fileId source : String) :
    ScopesClose v path fileId source ↔ ScopesAnswered v source := by
  have hreports : ∀ {before l behind}, looks v (Token.lex source) = before ++ l :: behind →
      ∀ m ∈ behind, Reports m.read m.event := fun h m hm =>
    Markup.reports_of_mem_looks (h ▸ List.mem_append_right _ (List.mem_cons_of_mem _ hm))
  constructor
  · intro hclose before l behind h hl
    exact answered_of_closes (sound_afterLooks path fileId before) hl (hreports h)
      (hclose before l behind h hl)
  · intro hanswered before l behind h hl
    exact closes_of_answered (sound_afterLooks path fileId before) hl (opening_of_opensScope h hl)
      (hreports h) (hanswered before l behind h hl)

/-- A builder that starts without such faults comes to none about a container that is never closed,
if and only if it meets no enum without a body. -/
theorem sparing_afterLooks_iff {b : Builder} (hb : b.Sparing) (ls : List Look) :
    (∀ f ∈ (b.afterLooks ls).faults, f.isUnterminated = false) ↔
      ∀ before l behind e, ls = before ++ l :: behind → l.event = some (.ok e) →
        ¬(b.afterLooks before).Bodiless e := by
  constructor
  · rintro hall before l behind e rfl he hbodiless
    obtain ⟨f, hf, hun⟩ := Builder.exists_unterminated_of_bodiless hbodiless
    rw [Builder.afterLooks_append, Builder.afterLooks_cons he] at hall
    have hmem := (Builder.faults_takeAll _ (behind.filterMap Look.event)).subset hf
    rw [hall f hmem] at hun
    cases hun
  · intro hne
    induction ls generalizing b with
    | nil => exact hb.faults
    | cons l ls ih =>
      cases he : l.event with
      | none =>
        rw [Builder.afterLooks_cons_none he]
        refine ih hb fun before m behind e hls hm => ?_
        have := hne (l :: before) m behind e (by rw [hls]; rfl) hm
        rwa [Builder.afterLooks_cons_none he] at this
      | some e =>
        rw [Builder.afterLooks_cons he]
        refine ih (hb.take fun event hevent => ?_) fun before m behind f hls hm => ?_
        · exact hne [] l ls event rfl (hevent ▸ he)
        · have := hne (l :: before) m behind f (by rw [hls]; rfl) hm
          rwa [Builder.afterLooks_cons he] at this

/-- If all scopes are answered, a container is reported as never closed just for an enum without its
body. -/
theorem noneUnterminated_iff {v : Vocabulary} {source : String} (h : ScopesAnswered v source)
    (path fileId : String) :
    NoneUnterminated v path fileId source ↔ EnumsComplete v path fileId source := by
  have hempty : ((Builder.start path fileId).afterLooks (looks v (Token.lex source))).frames
      = [] := by
    have hsuffix := suffix_run_of_answered Scopes.Sound.start h
    have hscopes := (Builder.start path fileId).scopes_afterLooks (looks v (Token.lex source))
    have hframes := congrArg Scopes.frames hscopes
    exact List.map_eq_nil_iff.1 (hframes.trans (List.suffix_nil.1 hsuffix))
  have hstart : (Builder.start path fileId).Sparing :=
    ⟨by simp [Builder.start], by simp [Builder.start]⟩
  unfold NoneUnterminated EnumsComplete
  rw [ofSource_eq]
  simp only [Builder.finish, hempty, List.reverse_nil, List.flatMap_nil, List.append_nil]
  rw [sparing_afterLooks_iff hstart]
  constructor
  · intro hne before l behind position attributes declaration hls he henum hfault
    exact hne before l behind _ hls he ⟨position, attributes, declaration, rfl, henum, hfault⟩
  · rintro hne before l behind e hls he ⟨position, attributes, declaration, rfl, henum, hfault⟩
    exact hne before l behind position attributes declaration hls he henum hfault

/-- **All scopes of a file close at the partners of their braces, and none of its containers is
reported as never closed, if and only if every scope is answered and every enum complete.** In a
text of nested braces it is so if every look is faithful. -/
theorem scopes_close_iff (v : Vocabulary) (path fileId source : String) :
    (ScopesClose v path fileId source ∧ NoneUnterminated v path fileId source ↔
      ScopesAnswered v source ∧ EnumsComplete v path fileId source) ∧
    (Brace.Nested (Token.braces (Token.lex source)) →
      (∀ l ∈ looks v (Token.lex source), l.Faithful) →
        ScopesClose v path fileId source ∧ NoneUnterminated v path fileId source) := by
  have hiff : ScopesClose v path fileId source ∧ NoneUnterminated v path fileId source ↔
      ScopesAnswered v source ∧ EnumsComplete v path fileId source := by
    rw [scopesClose_iff]
    exact and_congr_right fun h => noneUnterminated_iff h path fileId
  refine ⟨hiff, fun hnested hfaithful => hiff.2 ⟨scopesAnswered_of_faithful hnested hfaithful, ?_⟩⟩
  intro before l behind position attributes declaration hls he henum
  have hmem : l ∈ looks v (Token.lex source) := hls ▸ List.mem_append_right _ List.mem_cons_self
  exact absurd (hfaithful l hmem)
    (not_faithful_of_bodiless (Markup.reports_of_mem_looks hmem) he henum)

theorem scopes_close_nested :
    (Brace.Nested (Token.braces (Token.lex
        "namespace n { CLASS() class A { ENUM() enum E { a }; void f() { { } } }; }")) ∧
      ∀ l ∈ looks {} (Token.lex
        "namespace n { CLASS() class A { ENUM() enum E { a }; void f() { { } } }; }"),
        l.Faithful) ∧
    ScopesClose {} "a.h" "a.h"
        "namespace n { CLASS() class A { ENUM() enum E { a }; void f() { { } } }; }" ∧
      NoneUnterminated {} "a.h" "a.h"
        "namespace n { CLASS() class A { ENUM() enum E { a }; void f() { { } } }; }" :=
  ⟨⟨by decide +kernel, by decide +kernel⟩,
    (scopes_close_iff {} "a.h" "a.h" _).2 (by decide +kernel) (by decide +kernel)⟩

/-- In a text of nested braces a container can stay open: a data member without a semicolon takes
the container's closing brace, and what comes behind goes by the wrong scope. -/
theorem unterminated_of_swallowed_brace :
    ¬∀ v path fileId source, Brace.Nested (Token.braces (Token.lex source)) →
      ScopesClose v path fileId source ∧ NoneUnterminated v path fileId source := by
  intro h
  obtain ⟨-, hnone⟩ := h {} "a.h" "a.h"
    "STRUCT() struct S { PROPERTY() int x }; STRUCT() struct T { GENERATED_BODY() };"
    (by decide +kernel)
  unfold NoneUnterminated at hnone
  revert hnone
  decide +kernel

end HeaderReflection
