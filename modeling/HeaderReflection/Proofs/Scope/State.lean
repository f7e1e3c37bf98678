import HeaderReflection.Container.Build
import HeaderReflection.Proofs.Markup.Looks

/-!
# Open scopes

What is open at a place of a file: the containers and namespaces whose bodies have not ended. It
depends on the events alone, and of these only on the ones that tell of a brace.

* `scopes_process`: what an event does to the open scopes of a builder.
* `Above.after`: an event leaves the scopes below it open, unless it closes a brace at their depth.
* `closeScope_opened`: a brace that closes at the depth of the scope opened last closes that scope.
-/

namespace HeaderReflection

open Markup (Look)

/-- The containers and namespaces that are open, innermost first. -/
structure Scopes where
  depth : Nat
  /-- The slots of the containers with the depths of their bodies. -/
  frames : List (Nat × Nat)
  namespaces : List OpenNamespace
  /-- The number of containers so far, open or not. -/
  slots : Nat

/-- The open scopes of a builder. -/
def Builder.scopes (b : Builder) : Scopes :=
  ⟨b.depth, b.frames.map fun f => (f.slot, f.depth), b.namespaces, b.slots.length⟩

/-- The brace that an event tells of. An enum tells of none. -/
def Event.brace? : Event → Option Brace
  | .container _ _ declaration _ =>
    if isEnumDeclaration declaration.text then none else some .opening
  | .openNamespace .. => some .opening
  | .openBrace _ => some .opening
  | .closeBrace _ => some .closing
  | _ => none

namespace Scopes

/-- The scopes without the innermost namespace, if that is as deep as a closing brace. -/
def closeNamespace (s : Scopes) : Scopes :=
  match s.namespaces with
  | ns :: outer => if ns.depth = s.depth then { s with namespaces := outer } else s
  | [] => s

/-- The scopes behind a closing brace, but for the depth. -/
def closeScope (s : Scopes) : Scopes :=
  match s.frames with
  | frame :: outer => if frame.2 = s.depth then { s with frames := outer } else s.closeNamespace
  | [] => s.closeNamespace

/-- The scopes after an event. -/
def after (s : Scopes) : Event → Scopes
  | .container _ _ declaration _ =>
    if isEnumDeclaration declaration.text then { s with slots := s.slots + 1 }
    else
      { s with
        depth := s.depth + 1
        frames := (s.slots, s.depth + 1) :: s.frames
        slots := s.slots + 1 }
  | .openNamespace _ name =>
    { s with
      depth := s.depth + 1
      namespaces := ⟨s.depth + 1, namespaceNames name.text⟩ :: s.namespaces }
  | .openBrace _ => { s with depth := s.depth + 1 }
  | .closeBrace _ =>
    let s := s.closeScope
    { s with depth := s.depth - 1 }
  | _ => s

end Scopes

/-! ## The scopes of a builder -/

namespace Builder

theorem scopes_fail (b : Builder) (f : Fault) : (b.fail f).scopes = b.scopes := by
  unfold fail
  split
  · rfl
  · rename_i h
    simp [scopes, Frame.blame, h]

theorem scopes_addProperty (b : Builder) (position : Text.Position)
    (attributes declaration : Excerpt) :
    (b.addProperty position attributes declaration).scopes = b.scopes := by
  unfold addProperty
  split
  · rfl
  · rename_i h
    split
    · simp [scopes, Frame.blame, h]
    · simp [scopes, Frame.blame, h]
    · split <;> simp [scopes, Frame.blame, h]

theorem scopes_addMethod (b : Builder) (position : Text.Position)
    (attributes declaration : Excerpt) :
    (b.addMethod position attributes declaration).scopes = b.scopes := by
  unfold addMethod
  split
  · rfl
  · rename_i h
    split <;> simp [scopes, Frame.blame, h]

theorem scopes_markBody (b : Builder) (position : Text.Position) :
    (b.markBody position).scopes = b.scopes := by
  unfold markBody
  split
  · rfl
  · rename_i h
    simp [scopes, h]

theorem scopes_setVisibility (b : Builder) (visibility : Visibility) :
    (b.setVisibility visibility).scopes = b.scopes := by
  unfold setVisibility
  split
  · rfl
  · rename_i h
    split
    · simp [scopes, h]
    · rfl

theorem scopes_complete (b : Builder) (frame : Frame) :
    (b.complete frame).scopes = b.scopes := by
  unfold complete
  split
  · rfl
  · dsimp only
    split <;> simp [scopes, warn]

theorem scopes_closeNamespace (b : Builder) :
    b.closeNamespace.scopes = b.scopes.closeNamespace := by
  unfold closeNamespace Scopes.closeNamespace
  cases h : b.namespaces with
  | nil => simp [scopes, h]
  | cons ns outer =>
    by_cases hd : ns.depth = b.depth <;> simp [scopes, h, hd]

theorem scopes_closeScope (b : Builder) : b.closeScope.scopes = b.scopes.closeScope := by
  unfold closeScope Scopes.closeScope
  cases h : b.frames with
  | nil => simpa [scopes, h] using b.scopes_closeNamespace
  | cons frame outer =>
    dsimp only
    split
    · rename_i hd
      rw [scopes_complete]
      simp [scopes, h, hd]
    · rename_i hd
      rw [scopes_closeNamespace]
      simp [scopes, h, hd]

theorem scopes_addEnum (b : Builder) (c : Container) (fault : Option Fault)
    (body : Option String) :
    (b.addEnum c fault body).scopes = { b.scopes with slots := b.scopes.slots + 1 } := by
  unfold addEnum
  split <;> simp [scopes, report]

/-- What an event does to the open scopes. -/
theorem scopes_process (b : Builder) (e : Event) : (b.process e).scopes = b.scopes.after e := by
  cases e with
  | container position attributes declaration body =>
    simp only [process, openContainer, Scopes.after]
    split
    · rw [scopes_addEnum]
      split <;> rfl
    · split <;> simp [openFrame, scopes]
  | property position attributes declaration => exact scopes_addProperty ..
  | function position attributes declaration => exact scopes_addMethod ..
  | generatedBody position attributes => exact scopes_markBody ..
  | label position visibility => exact scopes_setVisibility ..
  | openNamespace position name => rfl
  | openBrace position => rfl
  | closeBrace position =>
    have h := b.scopes_closeScope
    simp only [process, Scopes.after, ← h]
    rfl

end Builder

/-! ## Scopes above others -/

namespace Scopes

/-- No scope is deeper than the place. -/
structure Bounded (s : Scopes) : Prop where
  frames : ∀ f ∈ s.frames, f.2 ≤ s.depth
  namespaces : ∀ ns ∈ s.namespaces, ns.depth ≤ s.depth

/-- All that was open is open still, and what has been opened since is deeper. -/
structure Above (base s : Scopes) : Prop where
  depth : base.depth ≤ s.depth
  frames : ∃ fs, s.frames = fs ++ base.frames ∧ ∀ f ∈ fs, base.depth < f.2
  namespaces : ∃ ns, s.namespaces = ns ++ base.namespaces ∧ ∀ n ∈ ns, base.depth < n.depth

theorem Above.refl (s : Scopes) : Above s s :=
  ⟨Nat.le_refl _, ⟨[], rfl, by simp⟩, ⟨[], rfl, by simp⟩⟩

/-- What is open depends on the depth and the two stacks alone. -/
theorem Above.congr {base s s' : Scopes} (h : Above base s) (hd : s'.depth = s.depth)
    (hf : s'.frames = s.frames) (hn : s'.namespaces = s.namespaces) : Above base s' := by
  refine ⟨?_, ?_, ?_⟩
  · rw [hd]
    exact h.depth
  · rw [hf]
    exact h.frames
  · rw [hn]
    exact h.namespaces

theorem Above.deeper {base s : Scopes} (h : Above base s) :
    Above base { s with depth := s.depth + 1 } :=
  ⟨Nat.le_succ_of_le h.depth, h.frames, h.namespaces⟩

theorem Above.openFrame {base s : Scopes} (h : Above base s) (slot : Nat) :
    Above base { s with
      depth := s.depth + 1, frames := (slot, s.depth + 1) :: s.frames, slots := s.slots + 1 } := by
  obtain ⟨fs, hfs, hdeep⟩ := h.frames
  refine ⟨Nat.le_succ_of_le h.depth, ⟨(slot, s.depth + 1) :: fs, by simp [hfs], ?_⟩, h.namespaces⟩
  simp only [List.mem_cons]
  rintro f (rfl | hf)
  · exact Nat.lt_succ_of_le h.depth
  · exact hdeep f hf

theorem Above.openNamespace {base s : Scopes} (h : Above base s) (names : List String) :
    Above base { s with
      depth := s.depth + 1, namespaces := ⟨s.depth + 1, names⟩ :: s.namespaces } := by
  obtain ⟨ns, hns, hdeep⟩ := h.namespaces
  refine ⟨Nat.le_succ_of_le h.depth, h.frames, ⟨⟨s.depth + 1, names⟩ :: ns, by simp [hns], ?_⟩⟩
  simp only [List.mem_cons]
  rintro n (rfl | hn)
  · exact Nat.lt_succ_of_le h.depth
  · exact hdeep n hn

theorem Above.closeNamespace {base s : Scopes} (h : Above base s) (hbase : base.Bounded)
    (hlt : base.depth < s.depth) : Above base s.closeNamespace := by
  obtain ⟨ns, hns, hdeep⟩ := h.namespaces
  unfold Scopes.closeNamespace
  split
  · rename_i n outer hs
    split
    · rename_i hd
      refine ⟨h.depth, h.frames, ?_⟩
      cases ns with
      | nil =>
        have := hbase.namespaces n (by rw [← List.nil_append base.namespaces, ← hns, hs]; simp)
        omega
      | cons m ns =>
        rw [hs, List.cons_append] at hns
        exact ⟨ns, (List.cons.inj hns).2, fun n hn => hdeep n (List.mem_cons_of_mem _ hn)⟩
    · exact h
  · exact h

theorem Above.closeScope {base s : Scopes} (h : Above base s) (hbase : base.Bounded)
    (hlt : base.depth < s.depth) : Above base s.closeScope := by
  obtain ⟨fs, hfs, hdeep⟩ := h.frames
  unfold Scopes.closeScope
  split
  · rename_i f outer hs
    split
    · rename_i hd
      refine ⟨h.depth, ?_, h.namespaces⟩
      cases fs with
      | nil =>
        have := hbase.frames f (by rw [← List.nil_append base.frames, ← hfs, hs]; simp)
        omega
      | cons g fs =>
        rw [hs, List.cons_append] at hfs
        exact ⟨fs, (List.cons.inj hfs).2, fun f hf => hdeep f (List.mem_cons_of_mem _ hf)⟩
    · exact h.closeNamespace hbase hlt
  · exact h.closeNamespace hbase hlt

theorem depth_closeScope (s : Scopes) : s.closeScope.depth = s.depth := by
  unfold closeScope closeNamespace
  split
  · split
    · rfl
    · split
      · split <;> rfl
      · rfl
  · split
    · split <;> rfl
    · rfl

/-- An event leaves open what lies below, unless it closes a brace that is no deeper. -/
theorem Above.after {base s : Scopes} (h : Above base s) (hbase : base.Bounded) {e : Event}
    (he : e.brace? = some .closing → base.depth < s.depth) : Above base (s.after e) := by
  cases e with
  | container position attributes declaration body =>
    simp only [Scopes.after]
    split
    · exact h.congr rfl rfl rfl
    · exact h.openFrame _
  | property position attributes declaration => exact h
  | function position attributes declaration => exact h
  | generatedBody position attributes => exact h
  | label position visibility => exact h
  | openNamespace position name => exact h.openNamespace _
  | openBrace position => exact h.deeper
  | closeBrace position =>
    have hlt := he rfl
    have hclose := h.closeScope hbase hlt
    refine ⟨?_, hclose.frames, hclose.namespaces⟩
    simp only [Scopes.after, depth_closeScope]
    omega

/-- The depth counts the braces that events tell of. -/
theorem depth_after (s : Scopes) (e : Event) : (s.after e).depth =
    match e.brace? with
    | some .opening => s.depth + 1
    | some .closing => s.depth - 1
    | none => s.depth := by
  cases e with
  | container position attributes declaration body =>
    simp only [after, Event.brace?]
    split <;> rfl
  | closeBrace position => simp [after, Event.brace?, depth_closeScope]
  | _ => rfl

/-! ## Depths of open scopes -/

/-- Open scopes lie at different depths, from one to that of the place, and deeper the further
inside they are. -/
structure Sound (s : Scopes) : Prop where
  bounded : s.Bounded
  positive : (∀ f ∈ s.frames, 0 < f.2) ∧ ∀ n ∈ s.namespaces, 0 < n.depth
  frames : s.frames.Pairwise fun inner outer => outer.2 < inner.2
  namespaces : s.namespaces.Pairwise fun inner outer => outer.depth < inner.depth
  apart : ∀ f ∈ s.frames, ∀ n ∈ s.namespaces, f.2 ≠ n.depth

theorem Sound.start : Sound ⟨0, [], [], 0⟩ :=
  ⟨⟨by simp, by simp⟩, ⟨by simp, by simp⟩, .nil, .nil, by simp⟩

/-- Opening a container at the next depth keeps scopes sound. -/
theorem Sound.openFrame {s : Scopes} (h : s.Sound) (slot : Nat) :
    Sound { s with
      depth := s.depth + 1, frames := (slot, s.depth + 1) :: s.frames, slots := s.slots + 1 } where
  bounded := by
    refine ⟨?_, fun n hn => Nat.le_succ_of_le (h.bounded.namespaces n hn)⟩
    simp only [List.mem_cons]
    rintro f (rfl | hf)
    · exact Nat.le_refl _
    · exact Nat.le_succ_of_le (h.bounded.frames f hf)
  positive := by
    refine ⟨?_, h.positive.2⟩
    simp only [List.mem_cons]
    rintro f (rfl | hf)
    · exact Nat.succ_pos _
    · exact h.positive.1 f hf
  frames := List.pairwise_cons.2 ⟨fun f hf => Nat.lt_succ_of_le (h.bounded.frames f hf), h.frames⟩
  namespaces := h.namespaces
  apart := by
    simp only [List.mem_cons]
    rintro f (rfl | hf) n hn
    · exact Nat.ne_of_gt (Nat.lt_succ_of_le (h.bounded.namespaces n hn))
    · exact h.apart f hf n hn

/-- Opening a namespace at the next depth keeps scopes sound. -/
theorem Sound.openNamespace {s : Scopes} (h : s.Sound) (names : List String) :
    Sound { s with
      depth := s.depth + 1, namespaces := ⟨s.depth + 1, names⟩ :: s.namespaces } where
  bounded := by
    refine ⟨fun f hf => Nat.le_succ_of_le (h.bounded.frames f hf), ?_⟩
    simp only [List.mem_cons]
    rintro n (rfl | hn)
    · exact Nat.le_refl _
    · exact Nat.le_succ_of_le (h.bounded.namespaces n hn)
  positive := by
    refine ⟨h.positive.1, ?_⟩
    simp only [List.mem_cons]
    rintro n (rfl | hn)
    · exact Nat.succ_pos _
    · exact h.positive.2 n hn
  frames := h.frames
  namespaces :=
    List.pairwise_cons.2 ⟨fun n hn => Nat.lt_succ_of_le (h.bounded.namespaces n hn), h.namespaces⟩
  apart := by
    simp only [List.mem_cons]
    rintro f hf n (rfl | hn)
    · exact Nat.ne_of_lt (Nat.lt_succ_of_le (h.bounded.frames f hf))
    · exact h.apart f hf n hn

theorem suffix_closeNamespace (s : Scopes) : s.closeNamespace.namespaces <:+ s.namespaces := by
  unfold closeNamespace
  split
  · rename_i n outer hn
    split
    · rw [hn]
      exact List.suffix_cons n outer
    · exact List.suffix_rfl
  · exact List.suffix_rfl

theorem frames_closeNamespace (s : Scopes) : s.closeNamespace.frames = s.frames := by
  unfold closeNamespace
  split
  · split <;> rfl
  · rfl

/-- A closing brace leaves open no scope that is as deep as it is. -/
theorem Sound.closeScope_lt {s : Scopes} (h : s.Sound) :
    (∀ f ∈ s.closeScope.frames, f.2 < s.depth) ∧
      ∀ n ∈ s.closeScope.namespaces, n.depth < s.depth := by
  have hns : (∀ f ∈ s.frames, f.2 < s.depth) →
      (∀ f ∈ s.closeNamespace.frames, f.2 < s.depth) ∧
        ∀ n ∈ s.closeNamespace.namespaces, n.depth < s.depth := by
    intro hf
    refine ⟨by rwa [frames_closeNamespace], fun n hn => ?_⟩
    unfold closeNamespace at hn
    cases hs : s.namespaces with
    | nil => simp [hs] at hn
    | cons m outer =>
      have hm := h.bounded.namespaces m (hs ▸ List.mem_cons_self)
      have hrest := (List.pairwise_cons.1 (hs ▸ h.namespaces)).1
      simp only [hs] at hn
      split at hn
      · rename_i hd
        exact hd ▸ hrest n hn
      · rename_i hd
        rw [hs] at hn
        rcases List.mem_cons.1 hn with rfl | hn
        · omega
        · have := hrest n hn
          omega
  unfold closeScope
  cases hs : s.frames with
  | nil => exact hns (by simp [hs])
  | cons f outer =>
    have hf := h.bounded.frames f (hs ▸ List.mem_cons_self)
    have hrest := (List.pairwise_cons.1 (hs ▸ h.frames)).1
    dsimp only
    split
    · rename_i hd
      refine ⟨fun g hg => hd ▸ hrest g hg, fun n hn => ?_⟩
      have hle := h.bounded.namespaces n hn
      have hne := h.apart f (hs ▸ List.mem_cons_self) n hn
      omega
    · rename_i hd
      refine hns fun g hg => ?_
      rw [hs] at hg
      rcases List.mem_cons.1 hg with rfl | hg
      · omega
      · have := hrest g hg
        omega

theorem suffix_closeScope (s : Scopes) :
    s.closeScope.frames <:+ s.frames ∧ s.closeScope.namespaces <:+ s.namespaces := by
  have hns : s.closeNamespace.frames <:+ s.frames ∧ s.closeNamespace.namespaces <:+ s.namespaces :=
    ⟨s.frames_closeNamespace ▸ List.suffix_rfl, s.suffix_closeNamespace⟩
  unfold closeScope
  split
  · rename_i f outer hs
    split
    · refine ⟨?_, List.suffix_rfl⟩
      rw [hs]
      exact List.suffix_cons f outer
    · exact hns
  · exact hns

theorem Sound.closeBrace {s : Scopes} (h : s.Sound) :
    Sound { s.closeScope with depth := s.depth - 1 } := by
  obtain ⟨hf, hn⟩ := h.closeScope_lt
  obtain ⟨hfs, hns⟩ := s.suffix_closeScope
  exact {
    bounded := ⟨fun f hm => Nat.le_pred_of_lt (hf f hm), fun n hm => Nat.le_pred_of_lt (hn n hm)⟩
    positive := ⟨fun f hm => h.positive.1 f (hfs.subset hm),
      fun n hm => h.positive.2 n (hns.subset hm)⟩
    frames := h.frames.sublist hfs.sublist
    namespaces := h.namespaces.sublist hns.sublist
    apart := fun f hm n hm' => h.apart f (hfs.subset hm) n (hns.subset hm') }

/-- Every event keeps the open scopes sound. -/
theorem Sound.after {s : Scopes} (h : s.Sound) (e : Event) : (s.after e).Sound := by
  cases e with
  | container position attributes declaration body =>
    simp only [Scopes.after]
    split
    · exact ⟨⟨h.bounded.frames, h.bounded.namespaces⟩, h.positive, h.frames, h.namespaces, h.apart⟩
    · exact h.openFrame _
  | openNamespace position name => exact h.openNamespace _
  | openBrace position =>
    exact ⟨⟨fun f hf => Nat.le_succ_of_le (h.bounded.frames f hf),
      fun n hn => Nat.le_succ_of_le (h.bounded.namespaces n hn)⟩, h.positive, h.frames,
      h.namespaces, h.apart⟩
  | closeBrace position =>
    have := h.closeBrace
    simp only [Scopes.after, depth_closeScope]
    exact this
  | property position attributes declaration => exact h
  | function position attributes declaration => exact h
  | generatedBody position attributes => exact h
  | label position visibility => exact h

/-! ## Closing the scope opened last -/

/-- At the depth where a scope was opened nothing but what was open then is open. -/
theorem Above.eq_of_depth {base s : Scopes} (h : Above base s) (hs : s.Bounded)
    (hd : s.depth = base.depth) : s.frames = base.frames ∧ s.namespaces = base.namespaces := by
  obtain ⟨fs, hfs, hf⟩ := h.frames
  obtain ⟨ns, hns, hn⟩ := h.namespaces
  have hfnil : fs = [] := List.eq_nil_iff_forall_not_mem.2 fun f hm => by
    have hle := hs.frames f (by rw [hfs]; exact List.mem_append_left _ hm)
    have hlt := hf f hm
    omega
  have hnnil : ns = [] := List.eq_nil_iff_forall_not_mem.2 fun n hm => by
    have hle := hs.namespaces n (by rw [hns]; exact List.mem_append_left _ hm)
    have hlt := hn n hm
    omega
  subst hfnil hnnil
  exact ⟨hfs, hns⟩

end Scopes

/-- The event opens a scope: a namespace or the body of a class or struct. -/
def Event.opensScope : Event → Bool
  | .container _ _ declaration _ => !isEnumDeclaration declaration.text
  | .openNamespace .. => true
  | _ => false

namespace Scopes

theorem depth_after_opensScope {e : Event} (he : e.opensScope = true) (s : Scopes) :
    (s.after e).depth = s.depth + 1 := by
  cases e with
  | container position attributes declaration body =>
    simp only [Event.opensScope, Bool.not_eq_true'] at he
    simp [after, he]
  | openNamespace position name => rfl
  | _ => cases he

/-- A scope that is opened stands on top of its stack. -/
theorem length_after_opensScope {e : Event} (he : e.opensScope = true) (s : Scopes) :
    (s.after e).frames.length + (s.after e).namespaces.length =
      s.frames.length + s.namespaces.length + 1 := by
  cases e with
  | container position attributes declaration body =>
    simp only [Event.opensScope, Bool.not_eq_true'] at he
    simp [after, he]
    omega
  | openNamespace position name => simp [after]; omega
  | _ => cases he

/-- A closing brace at the depth where a scope was opened closes that scope, and nothing else. -/
theorem closeScope_opened {s t : Scopes} {e : Event} (hs : s.Bounded) (he : e.opensScope = true)
    (ht : t.Bounded) (habove : Above (s.after e) t) (hd : t.depth = (s.after e).depth) :
    t.closeScope.frames = s.frames ∧ t.closeScope.namespaces = s.namespaces := by
  obtain ⟨hf, hn⟩ := habove.eq_of_depth ht hd
  rw [depth_after_opensScope he] at hd
  cases e with
  | container position attributes declaration body =>
    simp only [Event.opensScope, Bool.not_eq_true'] at he
    simp only [after, he, Bool.false_eq_true, if_false] at hf hn
    simp [closeScope, hf, hn, hd]
  | openNamespace position name =>
    simp only [after] at hf hn
    have hclose : t.closeScope = t.closeNamespace := by
      unfold closeScope
      cases hfs : t.frames with
      | nil => rfl
      | cons f outer =>
        have := hs.frames f (by rw [← hf, hfs]; exact List.mem_cons_self)
        dsimp only
        rw [if_neg (by omega)]
    simp [hclose, closeNamespace, hn, hf, hd]
  | _ => cases he

end Scopes

end HeaderReflection
