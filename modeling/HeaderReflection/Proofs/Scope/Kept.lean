import Mathlib.Data.List.Nodup
import HeaderReflection.Proofs.Scope.Enclosing

/-!
# What holds of every container

A statement about open containers, with one about complete containers and their slots, holds all
along a file if it holds of what is opened and if the items of a body keep it. What a single event
does to it is split up here once, so that an invariant is proved from the events that concern it.

* `Builder.fileId_names_take`: what an event does to the file and to the names that are taken.
* `Builder.Keeps`: a statement holds of all that is open, and one of all that is complete.
* `Builder.Keeps.take`: what one event needs in order to keep them.
* `nodup_of_notes`: what is noted of containers is different for all of them, if the notes are.
-/

namespace HeaderReflection

namespace Builder

/-! ## The file and the names that are taken -/

/-- The name that an event takes: that of the container it opens, if this has no fault. -/
def taken? (b : Builder) : Except ScanFault Event → Option String
  | .ok (.container _ attributes declaration _) =>
    let (c, fault) := b.containerOf attributes declaration
    if fault.isNone then some c.qualifiedName else none
  | _ => none

/-- An event leaves the file, and adds to the names the one that it takes. -/
theorem fileId_names_take (b : Builder) (e : Except ScanFault Event) :
    (b.take e).fileId = b.fileId ∧ (b.take e).names = b.names ++ (b.taken? e).toList := by
  have hitem : ∀ i : Item, (b.take i.event).fileId = b.fileId ∧
      (b.take i.event).names = b.names ++ [] := by
    intro i
    rw [List.append_nil]
    cases hf : b.frames with
    | nil =>
      obtain ⟨_, _, htake⟩ := take_item_outside hf i
      rw [htake]
      exact ⟨rfl, rfl⟩
    | cons f outer =>
      obtain ⟨_, htake, -⟩ := take_item_frame hf i
      rw [htake]
      exact ⟨rfl, rfl⟩
  cases e with
  | error f => exact hitem (.fault f)
  | ok e =>
    cases e with
    | property position a d => exact hitem (.property position a d)
    | function position a d => exact hitem (.function position a d)
    | generatedBody position a => exact hitem (.generatedBody position a)
    | label position v => exact hitem (.label position v)
    | openNamespace position name => exact ⟨rfl, (List.append_nil _).symm⟩
    | openBrace position => exact ⟨rfl, (List.append_nil _).symm⟩
    | container position a d body =>
      rcases hc : b.containerOf a d with ⟨c, fault⟩
      simp only [take, process, Builder.openContainer, taken?, hc, openFrame, addEnum, report]
      cases fault with
      | some fault => split <;> exact ⟨rfl, (List.append_nil _).symm⟩
      | none => cases body <;> split <;> exact ⟨rfl, rfl⟩
    | closeBrace position =>
      have hnamespace : b.closeNamespace.fileId = b.fileId ∧
          b.closeNamespace.names = b.names := by
        unfold closeNamespace
        repeat' split
        all_goals exact ⟨rfl, rfl⟩
      show b.closeScope.fileId = b.fileId ∧ b.closeScope.names = b.names ++ []
      rw [List.append_nil]
      unfold closeScope
      split
      · split
        · rw [complete_eq]
          exact ⟨rfl, rfl⟩
        · exact hnamespace
      · exact hnamespace

/-! ## Open and complete containers -/

/-- A statement holds of every open container, and one of every complete container and its slot. -/
structure Keeps (F : Frame → Prop) (P : Nat → Container → Prop) (b : Builder) : Prop where
  frames : ∀ f ∈ b.frames, F f
  complete : ∀ i c, b.slots[i]? = some (some c) → P i c

namespace Keeps

variable {F G : Frame → Prop} {P Q : Nat → Container → Prop} {b b' : Builder}

theorem start (path fileId : String) : Keeps F P { path, fileId } :=
  ⟨by simp, by simp⟩

theorem imp (h : Keeps F P b) (hF : ∀ f ∈ b.frames, F f → G f)
    (hP : ∀ i c, b.slots[i]? = some (some c) → P i c → Q i c) : Keeps G Q b :=
  ⟨fun f hf => hF f hf (h.frames f hf), fun i c hc => hP i c hc (h.complete i c hc)⟩

theorem congr (h : Keeps F P b) (hf : b'.frames = b.frames) (hs : b'.slots = b.slots) :
    Keeps F P b' :=
  ⟨fun f hm => h.frames f (hf ▸ hm), fun i c hc => h.complete i c (hs ▸ hc)⟩

/-- What is put behind all slots. -/
theorem push (h : Keeps F P b) {x : Option Container} (hx : ∀ c, x = some c → P b.slots.length c) :
    Keeps F P { b with slots := b.slots ++ [x] } := by
  refine ⟨h.frames, fun i c hc => ?_⟩
  rcases Nat.lt_trichotomy i b.slots.length with hi | rfl | hi
  · rw [List.getElem?_append_left hi] at hc
    exact h.complete i c hc
  · rw [List.getElem?_concat_length] at hc
    exact hx c (Option.some.inj hc)
  · rw [List.getElem?_eq_none (by rw [List.length_append]; exact hi)] at hc
    cases hc

/-- An item changes the innermost frame alone. -/
theorem item (h : Keeps F P b) (i : Item)
    (hitem : ∀ f g outer, b.frames = f :: outer →
      f.Gains (if b.direct || i.label?.isNone then [i] else []) g → F f → F g) :
    Keeps F P (b.take i.event) := by
  cases hf : b.frames with
  | nil =>
    obtain ⟨faults, warnings, htake⟩ := take_item_outside hf i
    rw [htake]
    exact h.congr rfl rfl
  | cons f outer =>
    obtain ⟨g, htake, hgains⟩ := take_item_frame hf i
    rw [htake]
    refine ⟨fun k hk => ?_, h.complete⟩
    have hmem : ∀ k ∈ f :: outer, F k := fun k hk => h.frames k (hf ▸ hk)
    rcases List.mem_cons.1 hk with rfl | hk
    · exact hitem f k outer hf hgains (hmem f List.mem_cons_self)
    · exact hmem k (List.mem_cons_of_mem _ hk)

/-- A container that is opened is open behind all slots, or complete if it is an enum. -/
theorem openContainer (h : Keeps F P b) {attributes declaration : Excerpt}
    (hopen : ∀ f : Frame, f.slot = b.slots.length →
      f.visibility = f.container.kind.defaultVisibility →
      b.containerOf attributes declaration = (f.container, f.fault) → F f)
    (henum : ∀ c enumerators, b.containerOf attributes declaration = (c, none) →
      P b.slots.length { c with enumerators })
    (body : Option String) : Keeps F P (b.openContainer attributes declaration body) := by
  rcases hc : b.containerOf attributes declaration with ⟨c, fault⟩
  cases he : isEnumDeclaration declaration.text with
  | false =>
    rw [openContainer_of_class hc he]
    have hpush := h.push (x := none) (by simp)
    refine ⟨fun f hf => ?_, hpush.complete⟩
    rcases List.mem_cons.1 hf with rfl | hf
    · exact hopen _ rfl rfl hc
    · exact h.frames f hf
  | true =>
    simp only [Builder.openContainer, hc, he, if_true]
    unfold addEnum
    split
    · exact (h.push (x := none) (by simp)).congr rfl rfl
    · exact (h.push (x := none) (by simp)).congr rfl rfl
    · refine (h.push (x := some _) ?_).congr rfl rfl
      rintro _ ⟨⟩
      exact henum c _ hc

/-- A container without a fault fills its slot as it is closed. -/
theorem closeBrace (h : Keeps F P b) (hclose : ∀ f, F f → f.fault = none → P f.slot f.container)
    (position : Text.Position) : Keeps F P (b.process (.closeBrace position)) := by
  have hnamespace : Keeps F P b.closeNamespace := by
    unfold closeNamespace
    split
    · split
      · exact h.congr rfl rfl
      · exact h
    · exact h
  have hscope : Keeps F P b.closeScope := by
    unfold closeScope
    split
    · rename_i f outer hf
      split
      · rw [complete_eq]
        refine ⟨fun k hk => h.frames k (hf ▸ List.mem_cons_of_mem _ hk), fun i c hc => ?_⟩
        dsimp only at hc
        split at hc
        · rename_i hfault
          rw [List.getElem?_set] at hc
          split at hc
          · rename_i hi
            split at hc
            · obtain rfl := Option.some.inj (Option.some.inj hc)
              exact hi ▸ hclose f (h.frames f (hf ▸ List.mem_cons_self)) hfault
            · cases hc
          · exact h.complete i c hc
        · exact h.complete i c hc
      · exact hnamespace
    · exact hnamespace
  exact hscope.congr rfl rfl

/-- What an event or a fault needs in order to keep the two statements: items of a body keep the
one about open containers, it holds of a container as it is opened, and it makes the other one
true of a container that is complete without a fault. -/
theorem take (h : Keeps F P b) (e : Except ScanFault Event)
    (hitem : ∀ i : Item, i.event = e → ∀ f g outer, b.frames = f :: outer →
      f.Gains (if b.direct || i.label?.isNone then [i] else []) g → F f → F g)
    (hopen : ∀ position attributes declaration body,
      e = .ok (.container position attributes declaration body) →
      (∀ f : Frame, f.slot = b.slots.length →
        f.visibility = f.container.kind.defaultVisibility →
        b.containerOf attributes declaration = (f.container, f.fault) → F f) ∧
      ∀ c enumerators, b.containerOf attributes declaration = (c, none) →
        P b.slots.length { c with enumerators })
    (hclose : ∀ f, F f → f.fault = none → P f.slot f.container) : Keeps F P (b.take e) := by
  cases e with
  | error f => exact h.item (.fault f) (hitem (.fault f) rfl)
  | ok e =>
    cases e with
    | property position a d => exact h.item (.property position a d) (hitem _ rfl)
    | function position a d => exact h.item (.function position a d) (hitem _ rfl)
    | generatedBody position a => exact h.item (.generatedBody position a) (hitem _ rfl)
    | label position v => exact h.item (.label position v) (hitem _ rfl)
    | container position a d body =>
      obtain ⟨hframe, henum⟩ := hopen position a d body rfl
      exact h.openContainer hframe henum body
    | openNamespace position name => exact h.congr rfl rfl
    | openBrace position => exact h.congr rfl rfl
    | closeBrace position => exact h.closeBrace hclose position

theorem of_mem_containers (h : Keeps F P b) {c : Container} (hc : c ∈ b.finish.containers) :
    ∃ i, P i c := by
  obtain ⟨x, hx, rfl⟩ := List.mem_filterMap.1 hc
  obtain ⟨i, hi⟩ := List.mem_iff_getElem?.1 hx
  exact ⟨i, h.complete i c hi⟩

end Keeps

end Builder

/-- What is recorded of a file, from the events in it. -/
theorem recorded_eq (v : Vocabulary) (path fileId source : String) :
    recorded v path fileId source =
      (Builder.takeAll { path, fileId } (Markup.scan v source)).slots := by
  unfold recorded Builder.afterLooks Markup.scan
  rw [Markup.events_eq_looks]
  rfl

/-- What is noted of each container under its slot is different for all containers of a file, if no
two notes are the same but for their slots. -/
theorem nodup_of_notes {v : Vocabulary} {path fileId source : String} {α : Type}
    {notes : List (Nat × α)} (hnotes : (notes.map Prod.snd).Nodup) {note? : Container → Option α}
    (h : ∀ i c, (recorded v path fileId source)[i]? = some (some c) →
      ∀ n, note? c = some n → (i, n) ∈ notes) :
    ((FileModel.ofSource v path fileId source).containers.filterMap note?).Nodup := by
  have hslot : ∀ i j n, (i, n) ∈ notes → (j, n) ∈ notes → i = j := fun i j n hi hj =>
    congrArg Prod.fst (List.inj_on_of_nodup_map hnotes hi hj rfl)
  have hall : (FileModel.ofSource v path fileId source).containers.filterMap note? =
      (recorded v path fileId source).filterMap (·.bind note?) := by
    rw [ofSource_eq]
    exact List.filterMap_filterMap
  rw [hall, List.Nodup, List.pairwise_filterMap, List.pairwise_iff_getElem]
  rintro i j hi hj hij n hn _ hn' rfl
  obtain ⟨c, hc, hn⟩ := Option.bind_eq_some_iff.1 hn
  obtain ⟨d, hd, hn'⟩ := Option.bind_eq_some_iff.1 hn'
  have hi := h i c (by rw [List.getElem?_eq_getElem hi, hc]) n hn
  have hj := h j d (by rw [List.getElem?_eq_getElem hj, hd]) n hn'
  exact absurd (hslot i j n hi hj) (Nat.ne_of_lt hij)

end HeaderReflection
