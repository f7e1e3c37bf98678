import HeaderReflection.Proofs.Markup.Marks
import HeaderReflection.Proofs.Scope.Files
import HeaderReflection.Proofs.Scope.Records

/-!
# Members of a container

A container that is recorded has one property for each look that announces a property while the
container is the innermost one open, and so for its functions.

* `Builder.Counted`: what a builder has recorded, and the marks that it has heeded.
* `Builder.Counted.take`: one look adds at most one mark, and a member for it or a fault.
* `Builder.Counted.afterLooks`: what looks record is what they heed.
-/

namespace HeaderReflection

open Markup (Look looks)

/-- The number of such members of a container. -/
def Member.count (c : Container) : Member → Nat
  | .property => c.properties.length
  | .function => c.methods.length

/-- A marker of a member, and the slot of the innermost container around it. -/
structure Mark where
  member : Member
  owner : Option Nat
  deriving DecidableEq, Repr

/-- Marks of other containers count for none of one container. -/
theorem Mark.count_append_of_owner {more : List Mark} {i : Nat} (h : ∀ k ∈ more, k.owner ≠ some i)
    (past : List Mark) (m : Member) :
    (past ++ more).count ⟨m, some i⟩ = past.count ⟨m, some i⟩ := by
  have hnot : (⟨m, some i⟩ : Mark) ∉ more := fun hmem => h _ hmem rfl
  rw [List.count_append, List.count_eq_zero_of_not_mem hnot, Nat.add_zero]

namespace Scopes

/-- The slot of the innermost open container. -/
def innermost? (s : Scopes) : Option Nat :=
  s.frames.head?.map Prod.fst

/-- The mark of a member that is announced, if one is. -/
def marks (s : Scopes) (announced : Option Member) : List Mark :=
  announced.toList.map fun m => ⟨m, s.innermost?⟩

/-- The marks that looks start with, each with the container that is innermost for the builder. -/
def heeded (v : Vocabulary) : Scopes → List Look → List Mark
  | _, [] => []
  | s, l :: ls => s.marks (l.announced? v) ++ heeded v (s.look l) ls

end Scopes

/-! ## Members that items declare -/

namespace Item

/-- The member that an item declares. -/
def member? (i : Item) : Option Member :=
  match i.event with
  | .ok e => e.member?
  | .error _ => none

/-- An item that is not a fault is announced as what it declares. -/
theorem announced_eq {i : Item} (h : i.isSound = true) {a : Option Member}
    (ha : Announces a (some i.event)) : a = i.member? := by
  cases i with
  | fault _ => cases h
  | _ => exact ha.symm

theorem length_property? {i : Item} (h : i.isSound = true) (visibility : Visibility) :
    (i.property? visibility).toList.length = i.member?.toList.count .property := by
  cases i with
  | property position a d =>
    simp only [isSound, Bool.and_eq_true] at h
    obtain ⟨ha, hd⟩ := h
    cases hattributes : Attributes.parse a.text a.position with
    | error _ => simp [hattributes, Except.isOk, Except.toBool] at ha
    | ok attributes =>
      cases hdeclared : Variable.parse d.text with
      | error _ => simp [hdeclared, Except.toOption] at hd
      | ok declared =>
        have hname : declared.name ≠ "" := by simpa [hdeclared, Except.toOption] using hd
        simp [property?, hattributes, hdeclared, hname, member?, event, Event.member?]
  | _ => simp [property?, member?, event, Event.member?]

theorem length_method? {i : Item} (h : i.isSound = true) (visibility : Visibility) :
    (i.method? visibility).toList.length = i.member?.toList.count .function := by
  cases i with
  | function position a d =>
    simp only [isSound, Bool.and_eq_true] at h
    obtain ⟨ha, hd⟩ := h
    cases hattributes : Attributes.parse a.text a.position with
    | error _ => simp [hattributes, Except.isOk, Except.toBool] at ha
    | ok attributes =>
      cases hsignature : Signature.parse d.text with
      | error _ => simp [hsignature, Except.isOk, Except.toBool] at hd
      | ok signature =>
        simp [method?, hattributes, hsignature, member?, event, Event.member?]
  | _ => simp [method?, member?, event, Event.member?]

end Item

namespace Frame.Gains

variable {f g : Frame}

theorem count_nil (h : f.Gains [] g) (hg : g.fault = none) :
    f.fault = none ∧ ∀ m : Member, m.count g.container = m.count f.container := by
  obtain ⟨fault, rfl, hfault⟩ := h
  refine ⟨(hfault.1 hg).1, fun m => ?_⟩
  cases m <;> simp [Member.count, withItems, Item.properties, Item.methods, Item.accessed]

/-- A frame without a fault has gained the member that an item declares. -/
theorem count_singleton {i : Item} (h : f.Gains [i] g) (hg : g.fault = none) :
    f.fault = none ∧ i.isSound = true ∧
      ∀ m : Member, m.count g.container = m.count f.container + i.member?.toList.count m := by
  obtain ⟨fault, rfl, hfault⟩ := h
  obtain ⟨hf, hsound⟩ := hfault.1 hg
  have hi : i.isSound = true := hsound i List.mem_cons_self
  refine ⟨hf, hi, fun m => ?_⟩
  rw [withItems_singleton]
  cases m with
  | property => simp [Member.count, ← Item.length_property? hi f.visibility]
  | function => simp [Member.count, ← Item.length_method? hi f.visibility]

end Frame.Gains

namespace Builder

/-! ## What has been counted -/

/-- Each container has as many members as marks have been heeded in it. It is so for the containers
that are complete, and for the open ones that have no fault. -/
structure Counted (past : List Mark) (b : Builder) : Prop where
  frames : ∀ f ∈ b.frames, f.fault = none →
    ∀ m : Member, m.count f.container = past.count ⟨m, some f.slot⟩
  complete : ∀ i c, b.slots[i]? = some (some c) →
    ∀ m : Member, m.count c = past.count ⟨m, some i⟩
  /-- The slots of the open containers are not filled yet. -/
  empty : ∀ f ∈ b.frames, b.slots[f.slot]? = some none
  apart : b.frames.Pairwise fun f g => f.slot ≠ g.slot
  /-- No mark is that of a container to come. -/
  later : ∀ i, b.slots.length ≤ i → ∀ m : Member, past.count ⟨m, some i⟩ = 0

namespace Counted

variable {past : List Mark} {b : Builder}

theorem start (path fileId : String) : Counted [] (Builder.start path fileId) :=
  ⟨by simp [Builder.start], by simp [Builder.start], by simp [Builder.start],
    by simp [Builder.start], by simp⟩

theorem congr (h : Counted past b) {b' : Builder} (hf : b'.frames = b.frames)
    (hs : b'.slots = b.slots) : Counted past b' := by
  refine ⟨?_, ?_, ?_, ?_, ?_⟩
  · rw [hf]
    exact h.frames
  · rw [hs]
    exact h.complete
  · rw [hf, hs]
    exact h.empty
  · rw [hf]
    exact h.apart
  · rw [hs]
    exact h.later

/-- Marks outside of all containers count for none. -/
theorem outside (h : Counted past b) {more : List Mark} (hmore : ∀ k ∈ more, k.owner = none) :
    Counted (past ++ more) b := by
  have hcount : ∀ m i, (past ++ more).count ⟨m, some i⟩ = past.count ⟨m, some i⟩ := fun m i =>
    Mark.count_append_of_owner (fun k hk => by simp [hmore k hk]) past m
  exact ⟨fun f hf hfault m => by rw [hcount, h.frames f hf hfault],
    fun i c hc m => by rw [hcount, h.complete i c hc], h.empty, h.apart,
    fun i hi m => by rw [hcount, h.later i hi]⟩

/-- The innermost frame with some marks more, and a member for each of them or a fault. -/
theorem replace (h : Counted past b) {f g : Frame} {outer : List Frame}
    (hf : b.frames = f :: outer) (hslot : g.slot = f.slot) {more : List Mark}
    (hmore : ∀ k ∈ more, k.owner = some f.slot)
    (hg : g.fault = none → f.fault = none ∧
      ∀ m : Member, m.count g.container = m.count f.container + more.count ⟨m, some f.slot⟩) :
    Counted (past ++ more) { b with frames := g :: outer } := by
  have hmem : f ∈ b.frames := by rw [hf]; exact List.mem_cons_self
  have hempty := h.empty f hmem
  have hapart := List.pairwise_cons.1 (hf ▸ h.apart)
  have hother : ∀ m i, i ≠ f.slot → (past ++ more).count ⟨m, some i⟩ = past.count ⟨m, some i⟩ :=
    fun m i hi => Mark.count_append_of_owner (fun k hk => by simp [hmore k hk, Ne.symm hi]) past m
  have houter : ∀ k ∈ outer, k ∈ b.frames := fun k hk => hf ▸ List.mem_cons_of_mem _ hk
  refine ⟨?_, ?_, ?_, ?_, ?_⟩
  · intro k hk hfault m
    rcases List.mem_cons.1 hk with rfl | hk
    · obtain ⟨hfault, hcount⟩ := hg hfault
      rw [hcount, hslot, List.count_append, h.frames f hmem hfault]
    · rw [hother m k.slot (hapart.1 k hk).symm, h.frames k (houter k hk) hfault]
  · intro i c hc m
    have hi : i ≠ f.slot := by
      rintro rfl
      rw [hempty] at hc
      cases hc
    rw [hother m i hi, h.complete i c hc]
  · intro k hk
    rcases List.mem_cons.1 hk with rfl | hk
    · rw [hslot]
      exact hempty
    · exact h.empty k (houter k hk)
  · refine List.pairwise_cons.2 ⟨fun k hk => ?_, hapart.2⟩
    rw [hslot]
    exact hapart.1 k hk
  · intro i hi m
    have hlt := (List.getElem?_eq_some_iff.1 hempty).1
    rw [hother m i (Nat.ne_of_gt (Nat.lt_of_lt_of_le hlt hi)), h.later i hi]

/-- A container without members has its slot behind all others. -/
theorem push (h : Counted past b) {x : Option Container}
    (hx : ∀ c, x = some c → ∀ m : Member, m.count c = 0) :
    Counted past { b with slots := b.slots ++ [x] } := by
  refine ⟨h.frames, ?_, ?_, h.apart, ?_⟩
  · intro i c hc m
    rcases Nat.lt_or_ge i b.slots.length with hi | hi
    · rw [List.getElem?_append_left hi] at hc
      exact h.complete i c hc m
    · rw [List.getElem?_append_right hi] at hc
      obtain ⟨-, rfl⟩ : i - b.slots.length = 0 ∧ x = some c := by
        simpa [List.getElem?_singleton] using hc
      rw [hx c rfl, h.later i hi]
  · intro f hf
    have hempty := h.empty f hf
    have hlt := (List.getElem?_eq_some_iff.1 hempty).1
    rw [List.getElem?_append_left hlt]
    exact hempty
  · intro i hi m
    rw [List.length_append] at hi
    exact h.later i (Nat.le_trans (Nat.le_add_right _ _) hi) m

/-- A class or struct that is opened has no members, and the slot behind all others. -/
theorem openFrame (h : Counted past b) {f : Frame} (hslot : f.slot = b.slots.length)
    (hcount : ∀ m : Member, m.count f.container = 0) :
    Counted past { b with frames := f :: b.frames, slots := b.slots ++ [none] } := by
  have hpush := h.push (x := none) (by simp)
  have hlt : ∀ g ∈ b.frames, g.slot < b.slots.length := fun g hg =>
    (List.getElem?_eq_some_iff.1 (h.empty g hg)).1
  refine ⟨?_, hpush.complete, ?_, ?_, hpush.later⟩
  · intro g hg hfault m
    rcases List.mem_cons.1 hg with rfl | hg
    · rw [hcount, h.later g.slot (Nat.le_of_eq hslot.symm)]
    · exact h.frames g hg hfault m
  · intro g hg
    rcases List.mem_cons.1 hg with rfl | hg
    · simp [hslot]
    · exact hpush.empty g hg
  · refine List.pairwise_cons.2 ⟨fun g hg => ?_, h.apart⟩
    rw [hslot]
    exact Nat.ne_of_gt (hlt g hg)

/-- The innermost frame fills its slot, if it has no fault. -/
theorem close (h : Counted past b) {f : Frame} {outer : List Frame} (hf : b.frames = f :: outer) :
    Counted past { b with
      frames := outer
      slots := if f.fault = none then b.slots.set f.slot (some f.container) else b.slots } := by
  have hmem : f ∈ b.frames := by rw [hf]; exact List.mem_cons_self
  have hapart := List.pairwise_cons.1 (hf ▸ h.apart)
  have houter : ∀ k ∈ outer, k ∈ b.frames := fun k hk => hf ▸ List.mem_cons_of_mem _ hk
  split
  · rename_i hfault
    refine ⟨fun k hk => h.frames k (houter k hk), ?_, ?_, hapart.2, ?_⟩
    · intro i c hc m
      by_cases hi : f.slot = i
      · subst hi
        have hlt := (List.getElem?_eq_some_iff.1 (h.empty f hmem)).1
        rw [List.getElem?_set_self hlt] at hc
        cases hc
        exact h.frames f hmem hfault m
      · rw [List.getElem?_set_ne hi] at hc
        exact h.complete i c hc m
    · intro k hk
      rw [List.getElem?_set_ne (hapart.1 k hk)]
      exact h.empty k (houter k hk)
    · intro i hi m
      rw [List.length_set] at hi
      exact h.later i hi m
  · exact ⟨fun k hk => h.frames k (houter k hk), h.complete, fun k hk => h.empty k (houter k hk),
      hapart.2, h.later⟩

end Counted

/-! ## One look -/

theorem innermost?_scopes (b : Builder) :
    b.scopes.innermost? = b.frames.head?.map Frame.slot := by
  cases h : b.frames <;> simp [scopes, Scopes.innermost?, h]

theorem owner_of_mem_marks (b : Builder) {a : Option Member} :
    ∀ k ∈ b.scopes.marks a, k.owner = b.frames.head?.map Frame.slot := by
  intro k hk
  obtain ⟨m, -, rfl⟩ := List.mem_map.1 hk
  exact b.innermost?_scopes

theorem count_marks {b : Builder} {f : Frame} {outer : List Frame} (hf : b.frames = f :: outer)
    (a : Option Member) (m : Member) :
    (b.scopes.marks a).count ⟨m, some f.slot⟩ = a.toList.count m := by
  rw [Scopes.marks, innermost?_scopes, hf]
  cases a with
  | none => rfl
  | some m' => simp [List.count_singleton]

/-- A container has no members as it is opened. -/
theorem count_containerOf (b : Builder) (attributes declaration : Excerpt) (m : Member) :
    m.count (b.containerOf attributes declaration).1 = 0 := by
  obtain ⟨_, _, _, _, _, h⟩ := b.containerOf_empty attributes declaration
  rw [h]
  cases m <;> rfl

namespace Counted

variable {past : List Mark} {b : Builder}

/-- An item adds the mark that announces it, and a member for it or a fault. -/
theorem item (h : Counted past b) (i : Item) {a : Option Member}
    (ha : Announces a (some i.event)) : Counted (past ++ b.scopes.marks a) (b.take i.event) := by
  have howner := b.owner_of_mem_marks (a := a)
  cases hf : b.frames with
  | nil =>
    rw [hf] at howner
    obtain ⟨faults, warnings, htake⟩ := take_item_outside hf i
    rw [htake]
    exact (h.outside howner).congr rfl rfl
  | cons f outer =>
    rw [hf] at howner
    obtain ⟨g, htake, hgains⟩ := take_item_frame hf i
    rw [htake]
    refine h.replace hf hgains.slot howner fun hfault => ?_
    split at hgains
    · obtain ⟨hfree, hsound, hcount⟩ := hgains.count_singleton hfault
      refine ⟨hfree, fun m => ?_⟩
      rw [hcount, count_marks hf, Item.announced_eq hsound ha]
    · rename_i hlabel
      obtain ⟨hfree, hcount⟩ := hgains.count_nil hfault
      refine ⟨hfree, fun m => ?_⟩
      -- What is passed over is a label, which announces no member.
      have hnone : a = none := by
        cases i with
        | label _ _ => exact ha.symm
        | _ => simp [Item.label?] at hlabel
      rw [hcount, count_marks hf, hnone]
      rfl

theorem openContainer (h : Counted past b) (attributes declaration : Excerpt)
    (body : Option String) : Counted past (b.openContainer attributes declaration body) := by
  have hcount := b.count_containerOf attributes declaration
  rcases hc : b.containerOf attributes declaration with ⟨c, fault⟩
  rw [hc] at hcount
  cases henum : isEnumDeclaration declaration.text with
  | false =>
    rw [openContainer_of_class hc henum]
    exact (h.openFrame rfl hcount).congr rfl rfl
  | true =>
    simp only [Builder.openContainer, hc, henum, if_true]
    unfold addEnum
    split
    · exact (h.push (x := none) (by simp)).congr rfl rfl
    · exact (h.push (x := none) (by simp)).congr rfl rfl
    · rename_i text
      let complete : Container := { c with enumerators := Enumerator.parseAll text }
      refine (h.push (x := some complete) ?_).congr rfl rfl
      rintro _ ⟨⟩ m
      rw [← hcount m]
      cases m <;> rfl

theorem closeBrace (h : Counted past b) (position : Text.Position) :
    Counted past (b.process (.closeBrace position)) := by
  have hnamespace : Counted past b.closeNamespace := by
    unfold closeNamespace
    split
    · split
      · exact h.congr rfl rfl
      · exact h
    · exact h
  have hscope : Counted past b.closeScope := by
    unfold closeScope
    split
    · rename_i f outer hf
      split
      · rw [complete_eq]
        exact (h.close hf).congr rfl rfl
      · exact hnamespace
    · exact hnamespace
  exact hscope.congr rfl rfl

/-- What a look yields adds the mark that the look starts with, and a member for it or a fault. -/
theorem take (h : Counted past b) {e : Except ScanFault Event} {a : Option Member}
    (ha : Announces a (some e)) : Counted (past ++ b.scopes.marks a) (b.take e) := by
  -- What concerns a scope is not announced as a member.
  have hscope : a = none → ∀ {b'}, Counted past b' → Counted (past ++ b.scopes.marks a) b' := by
    rintro rfl b' h'
    simpa [Scopes.marks] using h'
  cases e with
  | error f => exact h.item (.fault f) ha
  | ok e =>
    cases e with
    | property position attributes declaration =>
      exact h.item (.property position attributes declaration) ha
    | function position attributes declaration =>
      exact h.item (.function position attributes declaration) ha
    | generatedBody position attributes => exact h.item (.generatedBody position attributes) ha
    | label position visibility => exact h.item (.label position visibility) ha
    | container position attributes declaration body =>
      exact hscope ha.symm (h.openContainer attributes declaration body)
    | openNamespace position name => exact hscope ha.symm (h.congr rfl rfl)
    | openBrace position => exact hscope ha.symm (h.congr rfl rfl)
    | closeBrace position => exact hscope ha.symm (h.closeBrace position)

/-- What looks record is what they heed. -/
theorem afterLooks {v : Vocabulary} {ls : List Look}
    (hls : ∀ l ∈ ls, Announces (l.announced? v) l.event) (h : Counted past b) :
    Counted (past ++ b.scopes.heeded v ls) (b.afterLooks ls) := by
  induction ls generalizing past b with
  | nil =>
    rw [Scopes.heeded, List.append_nil]
    exact h
  | cons l ls ih =>
    have hl := hls l List.mem_cons_self
    have hrest : ∀ m ∈ ls, Announces (m.announced? v) m.event :=
      fun m hm => hls m (List.mem_cons_of_mem _ hm)
    rw [Scopes.heeded, ← List.append_assoc, Scopes.look]
    cases he : l.event with
    | none =>
      rw [he] at hl
      have hnone : b.scopes.marks (l.announced? v) = [] := by
        rw [show l.announced? v = none from hl]
        rfl
      rw [afterLooks_cons_none he, hnone, List.append_nil]
      exact ih hrest h
    | some e =>
      rw [he] at hl
      have hnext := ih hrest (h.take hl)
      rw [scopes_take] at hnext
      rw [afterLooks_cons he]
      cases e <;> exact hnext

end Counted

end Builder

end HeaderReflection
