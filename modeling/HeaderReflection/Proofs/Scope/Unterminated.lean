import HeaderReflection.Container.Build
import HeaderReflection.Proofs.Outcome

/-!
# Unterminated containers

Before the end of its file a container is reported as unterminated if and only if it is an enum
without a body that nothing else is wrong with.

* `Sparing.take`: no other event or fault makes a container unterminated.
* `exists_unterminated_of_bodiless`: such an enum is reported.
-/

namespace HeaderReflection

/-- A container is reported as never closed. -/
def Fault.isUnterminated : Fault → Bool
  | .unterminatedContainer .. => true
  | _ => false

namespace Builder

/-- No fault so far is about a container that is never closed. -/
structure Sparing (b : Builder) : Prop where
  faults : ∀ f ∈ b.faults, f.isUnterminated = false
  frames : ∀ frame ∈ b.frames, ∀ f ∈ frame.fault, f.isUnterminated = false

/-- The event is an enum without a body, and nothing else is wrong with it. -/
def Bodiless (b : Builder) (e : Event) : Prop :=
  ∃ position attributes declaration, e = .container position attributes declaration none ∧
    isEnumDeclaration declaration.text = true ∧ (b.containerOf attributes declaration).2 = none

variable {b : Builder}

/-! ## Faults of single operations -/

theorem isUnterminated_parseAttributes {path : String} {e : Excerpt} {f : Fault}
    (h : parseAttributes path e = .error f) : f.isUnterminated = false := by
  unfold parseAttributes at h
  cases hp : Attributes.parse e.text e.position with
  | ok m => rw [hp] at h; cases h
  | error a =>
    rw [hp] at h
    cases h
    rfl

theorem isUnterminated_containerOf {attributes declaration : Excerpt} {f : Fault}
    (h : (b.containerOf attributes declaration).2 = some f) : f.isUnterminated = false := by
  unfold containerOf at h
  dsimp only at h
  split at h
  · cases Option.some.inj h
    rfl
  · split at h
    · rename_i hp
      cases Option.some.inj h
      exact isUnterminated_parseAttributes hp
    · split at h
      · cases Option.some.inj h
        rfl
      · cases h

theorem isUnterminated_inFile (f : ScanFault) (file : String) :
    (f.inFile file).isUnterminated = false := by
  unfold ScanFault.inFile
  split <;> rfl

theorem Sparing.report (h : b.Sparing) {f : Fault} (hf : f.isUnterminated = false) :
    (b.report f).Sparing := by
  refine ⟨?_, h.frames⟩
  simp only [Builder.report, List.mem_append, List.mem_singleton]
  rintro g (hg | rfl)
  · exact h.faults g hg
  · exact hf

/-- The innermost frame may change, as long as its fault is of another kind. -/
theorem Sparing.replaceFrame (h : b.Sparing) {frame new : Frame} {outer : List Frame}
    (hb : b.frames = frame :: outer) (hnew : ∀ f ∈ new.fault, f.isUnterminated = false) :
    Sparing { b with frames := new :: outer } := by
  refine ⟨h.faults, ?_⟩
  simp only [List.mem_cons]
  rintro g (rfl | hg)
  · exact hnew
  · exact h.frames g (by rw [hb]; exact List.mem_cons_of_mem _ hg)

theorem isUnterminated_blame {frame : Frame} {f g : Fault}
    (hframe : ∀ f ∈ frame.fault, f.isUnterminated = false) (hf : f.isUnterminated = false)
    (hg : g ∈ (frame.blame f).fault) : g.isUnterminated = false := by
  unfold Frame.blame at hg
  cases hfault : frame.fault with
  | none =>
    rw [hfault] at hg
    cases Option.some.inj hg
    exact hf
  | some old =>
    rw [hfault] at hg
    exact hframe g (hfault ▸ hg)

theorem Sparing.blame (h : b.Sparing) {frame : Frame} {outer : List Frame} {f : Fault}
    (hb : b.frames = frame :: outer) (hf : f.isUnterminated = false) :
    Sparing { b with frames := frame.blame f :: outer } :=
  h.replaceFrame hb fun _ hg =>
    isUnterminated_blame (h.frames frame (by rw [hb]; exact List.mem_cons_self)) hf hg

theorem Sparing.fail (h : b.Sparing) {f : Fault} (hf : f.isUnterminated = false) :
    (b.fail f).Sparing := by
  unfold Builder.fail
  split
  · exact h.report hf
  · rename_i hb
    exact h.blame hb hf

theorem Sparing.keepFault (h : b.Sparing) {frame new : Frame} {outer : List Frame}
    (hb : b.frames = frame :: outer) (hnew : new.fault = frame.fault) :
    Sparing { b with frames := new :: outer } :=
  h.replaceFrame hb fun f hf =>
    h.frames frame (by rw [hb]; exact List.mem_cons_self) f (hnew ▸ hf)

theorem Sparing.addProperty (h : b.Sparing) (position : Text.Position)
    (attributes declaration : Excerpt) :
    (b.addProperty position attributes declaration).Sparing := by
  unfold Builder.addProperty
  split
  · exact h.report rfl
  · rename_i hb
    split
    · rename_i hp
      exact h.blame hb (isUnterminated_parseAttributes hp)
    · exact h.blame hb rfl
    · dsimp only
      split
      · exact h.blame hb rfl
      · exact h.keepFault hb rfl

theorem Sparing.addMethod (h : b.Sparing) (position : Text.Position)
    (attributes declaration : Excerpt) :
    (b.addMethod position attributes declaration).Sparing := by
  unfold Builder.addMethod
  split
  · exact h.report rfl
  · rename_i hb
    split
    · rename_i hp
      exact h.blame hb (isUnterminated_parseAttributes hp)
    · exact h.blame hb rfl
    · exact h.keepFault hb rfl

theorem Sparing.markBody (h : b.Sparing) (position : Text.Position) :
    (b.markBody position).Sparing := by
  unfold Builder.markBody
  split
  · exact ⟨h.faults, h.frames⟩
  · rename_i hb
    exact h.keepFault hb rfl

theorem Sparing.setVisibility (h : b.Sparing) (visibility : Visibility) :
    (b.setVisibility visibility).Sparing := by
  unfold Builder.setVisibility
  split
  · exact h
  · rename_i hb
    split
    · exact h.keepFault hb rfl
    · exact h

theorem Sparing.closeNamespace (h : b.Sparing) : b.closeNamespace.Sparing := by
  unfold Builder.closeNamespace
  split
  · split
    · exact ⟨h.faults, h.frames⟩
    · exact h
  · exact h

theorem Sparing.complete (h : b.Sparing) {frame : Frame}
    (hf : ∀ f ∈ frame.fault, f.isUnterminated = false) : (b.complete frame).Sparing := by
  unfold Builder.complete
  split
  · rename_i hfault
    exact h.report (hf _ hfault)
  · dsimp only
    split <;> exact ⟨h.faults, h.frames⟩

theorem Sparing.closeScope (h : b.Sparing) : b.closeScope.Sparing := by
  unfold Builder.closeScope
  split
  · rename_i frame outer hb
    split
    · have houter : Sparing { b with frames := outer } :=
        ⟨h.faults, fun g hg => h.frames g (by rw [hb]; exact List.mem_cons_of_mem _ hg)⟩
      exact houter.complete (h.frames frame (by rw [hb]; exact List.mem_cons_self))
    · exact h.closeNamespace
  · exact h.closeNamespace

theorem Sparing.openContainer (h : b.Sparing) {position : Text.Position}
    {attributes declaration : Excerpt} {body : Option String}
    (hbody : ¬b.Bodiless (.container position attributes declaration body)) :
    (b.openContainer attributes declaration body).Sparing := by
  unfold Builder.openContainer
  rcases hc : b.containerOf attributes declaration with ⟨c, fault⟩
  have hfault : ∀ f ∈ fault, f.isUnterminated = false := fun f hf =>
    isUnterminated_containerOf (by rw [hc]; exact hf)
  dsimp only
  split
  · rename_i henum
    unfold addEnum
    cases fault with
    | some f =>
      dsimp only [Option.isNone_some]
      have hreport := h.report (hfault f rfl)
      exact ⟨hreport.faults, hreport.frames⟩
    | none =>
      cases body with
      | none => exact absurd ⟨_, _, _, rfl, henum, by rw [hc]⟩ hbody
      | some body => exact ⟨h.faults, h.frames⟩
  · refine ⟨?_, ?_⟩
    · split <;> exact h.faults
    · have hframes : ∀ g ∈ (b.openFrame c fault).frames, ∀ f ∈ g.fault,
          f.isUnterminated = false := by
        simp only [openFrame, List.mem_cons]
        rintro g (rfl | hg)
        · exact hfault
        · exact h.frames g hg
      split <;> exact hframes

/-- An event makes no container unterminated but an enum without a body. -/
theorem Sparing.process (h : b.Sparing) {e : Event} (he : ¬b.Bodiless e) :
    (b.process e).Sparing := by
  cases e with
  | container position attributes declaration body => exact h.openContainer he
  | property position attributes declaration => exact h.addProperty ..
  | function position attributes declaration => exact h.addMethod ..
  | generatedBody position attributes => exact h.markBody ..
  | label position visibility => exact h.setVisibility ..
  | openNamespace position name => exact ⟨h.faults, h.frames⟩
  | openBrace position => exact ⟨h.faults, h.frames⟩
  | closeBrace position =>
    have hclose := h.closeScope
    exact ⟨hclose.faults, hclose.frames⟩

theorem Sparing.take (h : b.Sparing) {e : Except ScanFault Event}
    (he : ∀ event, e = .ok event → ¬b.Bodiless event) : (b.take e).Sparing := by
  cases e with
  | ok event => exact h.process (he event rfl)
  | error f => exact h.fail (isUnterminated_inFile f _)

/-! ## Faults stay -/

theorem faults_report (b : Builder) (f : Fault) : b.faults <+: (b.report f).faults :=
  List.prefix_append _ _

theorem faults_addProperty (b : Builder) (position : Text.Position)
    (attributes declaration : Excerpt) :
    b.faults <+: (b.addProperty position attributes declaration).faults := by
  unfold addProperty
  split
  · exact faults_report ..
  · split
    · exact List.prefix_rfl
    · exact List.prefix_rfl
    · dsimp only
      split <;> exact List.prefix_rfl

theorem faults_addMethod (b : Builder) (position : Text.Position)
    (attributes declaration : Excerpt) :
    b.faults <+: (b.addMethod position attributes declaration).faults := by
  unfold addMethod
  split
  · exact faults_report ..
  · split <;> exact List.prefix_rfl

theorem faults_complete (b : Builder) (frame : Frame) :
    b.faults <+: (b.complete frame).faults := by
  unfold complete
  split
  · exact faults_report ..
  · dsimp only
    split <;> exact List.prefix_rfl

theorem faults_closeNamespace (b : Builder) : b.closeNamespace.faults = b.faults := by
  unfold closeNamespace
  split
  · split <;> rfl
  · rfl

theorem faults_closeScope (b : Builder) : b.faults <+: b.closeScope.faults := by
  unfold closeScope
  split
  · rename_i frame outer hb
    split
    · exact faults_complete { b with frames := outer } frame
    · exact (faults_closeNamespace b).symm ▸ List.prefix_rfl
  · exact (faults_closeNamespace b).symm ▸ List.prefix_rfl

theorem faults_openContainer (b : Builder) (attributes declaration : Excerpt)
    (body : Option String) :
    b.faults <+: (b.openContainer attributes declaration body).faults := by
  unfold openContainer
  rcases b.containerOf attributes declaration with ⟨c, fault⟩
  dsimp only
  split
  · unfold addEnum
    cases fault with
    | some f => exact faults_report ..
    | none =>
      cases body with
      | none => exact faults_report ..
      | some body => exact List.prefix_rfl
  · split <;> exact List.prefix_rfl

/-- What has been reported stays reported. -/
theorem faults_process (b : Builder) (e : Event) : b.faults <+: (b.process e).faults := by
  cases e with
  | container position attributes declaration body => exact faults_openContainer ..
  | property position attributes declaration => exact faults_addProperty ..
  | function position attributes declaration => exact faults_addMethod ..
  | generatedBody position attributes =>
    simp only [process, markBody]
    split <;> exact List.prefix_rfl
  | label position visibility =>
    simp only [process, setVisibility]
    split
    · exact List.prefix_rfl
    · split <;> exact List.prefix_rfl
  | openNamespace position name => exact List.prefix_rfl
  | openBrace position => exact List.prefix_rfl
  | closeBrace position => exact faults_closeScope b

theorem faults_take (b : Builder) (e : Except ScanFault Event) :
    b.faults <+: (b.take e).faults := by
  cases e with
  | ok event => exact faults_process b event
  | error f =>
    simp only [take, fail]
    split
    · exact faults_report ..
    · exact List.prefix_rfl

theorem faults_takeAll (b : Builder) (es : List (Except ScanFault Event)) :
    b.faults <+: (b.takeAll es).faults := by
  induction es generalizing b with
  | nil => exact List.prefix_rfl
  | cons e es ih => exact (b.faults_take e).trans (ih (b.take e))

/-- An enum without a body that nothing else is wrong with is reported. -/
theorem exists_unterminated_of_bodiless {e : Event} (h : b.Bodiless e) :
    ∃ f ∈ (b.process e).faults, f.isUnterminated = true := by
  obtain ⟨position, attributes, declaration, rfl, henum, hfault⟩ := h
  rcases hc : b.containerOf attributes declaration with ⟨c, fault⟩
  rw [hc] at hfault
  cases hfault
  refine ⟨.unterminatedContainer b.path c.position c.name, ?_, rfl⟩
  simp [process, openContainer, hc, henum, addEnum, report]

end Builder

end HeaderReflection
