import HeaderReflection.Proofs.Scope.Kept

/-!
# Bodies of containers

The body of a container is the list of the items that stand in it and in no container inside of it,
with the labels that stand directly in it. What is recorded of a container is what the items of its
body declare, whatever else stands between them, and whether or not the braces of the file are
nested.

* `Scopes.bodies`: the items of all bodies of a file in order, each with its container's slot.
* `Builder.Gathered.take`: an event adds to a container the item that it is.
* `filled_recorded`: every container has the members, and the line, that its body declares.
-/

namespace HeaderReflection

namespace Item

/-- The item that an event is, or a fault in its place. -/
def ofEvent? : Except ScanFault Event → Option Item
  | .error f => some (.fault f)
  | .ok (.property position attributes declaration) =>
    some (.property position attributes declaration)
  | .ok (.function position attributes declaration) =>
    some (.function position attributes declaration)
  | .ok (.generatedBody position attributes) => some (.generatedBody position attributes)
  | .ok (.label position visibility) => some (.label position visibility)
  | .ok _ => none

theorem ofEvent?_eq_some_iff {e : Except ScanFault Event} {i : Item} :
    ofEvent? e = some i ↔ i.event = e := by
  constructor
  · intro h
    cases e with
    | error f =>
      obtain rfl := Option.some.inj h
      rfl
    | ok e =>
      cases e with
      | property | function | generatedBody | label =>
        obtain rfl := Option.some.inj h
        rfl
      | container | openNamespace | openBrace | closeBrace => cases h
  · rintro rfl
    cases i <;> rfl

end Item

/-! ## The items of bodies -/

/-- An item of a container's body. -/
structure BodyItem where
  item : Item
  /-- It stands directly in the body, and not between braces inside of it. -/
  direct : Bool

namespace Scopes

/-- The scopes after an event or a fault in its place. -/
def take (s : Scopes) : Except ScanFault Event → Scopes
  | .ok e => s.after e
  | .error _ => s

/-- The item that an event adds to the body of the innermost open container, with the slot of this
container. A label counts only directly in the body. -/
def items (s : Scopes) (e : Except ScanFault Event) : List (Nat × BodyItem) :=
  match s.frames, Item.ofEvent? e with
  | f :: _, some i =>
    if f.2 = s.depth || i.label?.isNone then [(f.1, ⟨i, f.2 = s.depth⟩)] else []
  | _, _ => []

/-- The items that events add to the bodies of containers, in order. -/
def bodies : Scopes → List (Except ScanFault Event) → List (Nat × BodyItem)
  | _, [] => []
  | s, e :: es => s.items e ++ bodies (s.take e) es

end Scopes

/-- The body of the container with a slot, among the items of all bodies. -/
def bodyAt (items : List (Nat × BodyItem)) (slot : Nat) : List BodyItem :=
  (items.filter (·.1 = slot)).map Prod.snd

theorem bodyAt_append (items more : List (Nat × BodyItem)) (slot : Nat) :
    bodyAt (items ++ more) slot = bodyAt items slot ++ bodyAt more slot := by
  simp [bodyAt]

theorem bodyAt_map_self (slot : Nat) (items : List BodyItem) :
    bodyAt (items.map (slot, ·)) slot = items := by
  simp [bodyAt, List.filter_map, Function.comp_def]

theorem bodyAt_map_of_ne {slot other : Nat} (h : slot ≠ other) (items : List BodyItem) :
    bodyAt (items.map (other, ·)) slot = [] := by
  simp [bodyAt, List.filter_map, Function.comp_def, h.symm]

/-- The body of the container with a slot in a file. -/
def bodyOf (v : Vocabulary) (source : String) (slot : Nat) : List BodyItem :=
  bodyAt (Scopes.bodies ⟨0, [], [], 0⟩ (Markup.scan v source)) slot

/-- The container has what the items of a body declare. -/
structure Filled (c : Container) (body : List BodyItem) : Prop where
  properties : c.properties = Item.properties c.kind.defaultVisibility (body.map (·.item))
  methods : c.methods = Item.methods c.kind.defaultVisibility (body.map (·.item))
  line : c.generatedBodyLine = Item.bodyLine (body.map (·.item))

/-- All items of a body are well formed. -/
def IsSound (body : List BodyItem) : Prop :=
  ∀ x ∈ body, x.item.isSound = true

/-- The container of a frame has what the items of a body declare, the access is the one behind
them, and a frame without a fault has a sound body. -/
structure Frame.IsFilled (f : Frame) (body : List BodyItem) : Prop where
  container : Filled f.container body
  visibility :
    f.visibility = Item.accessAfter f.container.kind.defaultVisibility (body.map (·.item))
  sound : f.fault = none → IsSound body

theorem Frame.Gains.isFilled {f g : Frame} {body more : List BodyItem}
    (h : f.Gains (more.map (·.item)) g) (hf : f.IsFilled body) : g.IsFilled (body ++ more) := by
  obtain ⟨fault, rfl, hfault⟩ := h
  obtain ⟨⟨hproperties, hmethods, hline⟩, hvisibility, hsound⟩ := hf
  have hkind : (f.withItems (more.map (·.item)) fault).container.kind = f.container.kind := rfl
  refine ⟨⟨?_, ?_, ?_⟩, ?_, fun hnone => ?_⟩
  · rw [hkind, List.map_append, Item.properties_append, ← hvisibility, ← hproperties]
    rfl
  · rw [hkind, List.map_append, Item.methods_append, ← hvisibility, ← hmethods]
    rfl
  · rw [List.map_append, Item.bodyLine_append, ← hline]
    rfl
  · rw [hkind, List.map_append, Item.accessAfter_append, ← hvisibility]
    rfl
  · obtain ⟨hfree, hmore⟩ := hfault.1 hnone
    refine List.forall_mem_append.2 ⟨hsound hfree, fun x hx => hmore _ (List.mem_map_of_mem hx)⟩

namespace Builder

variable {b : Builder} {items : List (Nat × BodyItem)}

/-- A container has no members as it is opened, and no line. -/
theorem filled_containerOf (b : Builder) (a d : Excerpt) : Filled (b.containerOf a d).1 [] := by
  obtain ⟨_, _, _, _, _, h⟩ := b.containerOf_empty a d
  rw [h]
  exact ⟨rfl, rfl, rfl⟩

theorem length_slots_take (b : Builder) (e : Except ScanFault Event) :
    b.slots.length ≤ (b.take e).slots.length := by
  have h := congrArg Scopes.slots (b.scopes_take e)
  have h : (b.take e).slots.length = _ := h
  rw [h]
  cases e with
  | error f => exact Nat.le_refl _
  | ok e =>
    cases e with
    | container position a d body =>
      simp only [Scopes.after]
      split <;> exact Nat.le_succ _
    | closeBrace position => exact Nat.le_of_eq (slots_closeScope b.scopes).symm
    | _ => exact Nat.le_refl _

/-- All containers have what the items of their bodies declare, and complete ones sound bodies. -/
structure Gathered (items : List (Nat × BodyItem)) (b : Builder) : Prop where
  keeps : b.Keeps (fun f => f.IsFilled (bodyAt items f.slot))
    fun i c => Filled c (bodyAt items i) ∧ IsSound (bodyAt items i)
  /-- The slots of open containers are empty, and different. -/
  counted : ∃ past, b.Counted past
  later : ∀ i, b.slots.length ≤ i → bodyAt items i = []

namespace Gathered

theorem counted_take (h : b.Gathered items) (e : Except ScanFault Event) :
    ∃ past, (b.take e).Counted past := by
  obtain ⟨past, hpast⟩ := h.counted
  cases e with
  | error f => exact ⟨_, hpast.take (a := none) trivial⟩
  | ok e => exact ⟨_, hpast.take (a := e.member?) rfl⟩

/-- An item of the innermost container is added to this one alone. -/
theorem take_item (h : b.Gathered items) {f : Frame} {outer : List Frame}
    (hf : b.frames = f :: outer) (i : Item) :
    (b.take i.event).Gathered (items ++
      (if b.direct || i.label?.isNone then [⟨i, b.direct⟩] else []).map (f.slot, ·)) := by
  obtain ⟨past, hpast⟩ := h.counted
  have hempty := hpast.empty f (hf ▸ List.mem_cons_self)
  have hapart := (List.pairwise_cons.1 (hf ▸ hpast.apart)).1
  refine ⟨?_, h.counted_take _, ?_⟩
  · obtain ⟨g, htake, hgains⟩ := take_item_frame hf i
    rw [htake]
    refine ⟨fun k hk => ?_, fun j c hc => ?_⟩
    · rcases List.mem_cons.1 hk with rfl | hk
      · rw [hgains.slot, bodyAt_append, bodyAt_map_self]
        refine Frame.Gains.isFilled ?_ (h.keeps.frames f (hf ▸ List.mem_cons_self))
        split <;> rename_i hif <;> simpa [hif] using hgains
      · rw [bodyAt_append, bodyAt_map_of_ne (hapart k hk).symm, List.append_nil]
        exact h.keeps.frames k (hf ▸ List.mem_cons_of_mem _ hk)
    · -- The slot of a container that is complete is not that of an open one.
      have hne : j ≠ f.slot := by
        rintro rfl
        rw [hempty] at hc
        cases hc
      rw [bodyAt_append, bodyAt_map_of_ne hne, List.append_nil]
      exact h.keeps.complete j c hc
  · intro j hj
    have hj := Nat.le_trans (b.length_slots_take _) hj
    have hlt := (List.getElem?_eq_some_iff.1 hempty).1
    rw [bodyAt_append, bodyAt_map_of_ne (Nat.ne_of_gt (Nat.lt_of_lt_of_le hlt hj)),
      h.later j hj]
    rfl

/-- What is no item, or stands outside of all containers, adds nothing to a body. -/
theorem take_other (h : b.Gathered items) {e : Except ScanFault Event}
    (he : b.frames = [] ∨ Item.ofEvent? e = none) : (b.take e).Gathered items := by
  refine ⟨h.keeps.take e ?_ ?_ fun f hf hfault => ⟨hf.container, hf.sound hfault⟩,
    h.counted_take e, fun i hi => h.later i (Nat.le_trans (b.length_slots_take e) hi)⟩
  · rintro i hi f g outer hf - -
    rcases he with hnil | hnone
    · rw [hnil] at hf
      cases hf
    · rw [Item.ofEvent?_eq_some_iff.2 hi] at hnone
      cases hnone
  · intro position a d body _
    have hfilled := b.filled_containerOf a d
    have hlater := h.later b.slots.length (Nat.le_refl _)
    refine ⟨fun f hslot hvisibility hc => ?_, fun c enumerators hc => ?_⟩
    · rw [hc] at hfilled
      rw [hslot, hlater]
      exact ⟨hfilled, hvisibility, fun _ _ hx => by cases hx⟩
    · rw [hc] at hfilled
      rw [hlater]
      exact ⟨⟨hfilled.properties, hfilled.methods, hfilled.line⟩, fun _ hx => by cases hx⟩

/-- An event adds to a container the item that it is. -/
theorem take (h : b.Gathered items) (e : Except ScanFault Event) :
    (b.take e).Gathered (items ++ b.scopes.items e) := by
  cases hf : b.frames with
  | nil =>
    have hitems : b.scopes.items e = [] := by simp [Scopes.items, scopes, hf]
    rw [hitems, List.append_nil]
    exact h.take_other (.inl hf)
  | cons f outer =>
    cases hi : Item.ofEvent? e with
    | none =>
      have hitems : b.scopes.items e = [] := by simp [Scopes.items, scopes, hf, hi]
      rw [hitems, List.append_nil]
      exact h.take_other (.inr hi)
    | some i =>
      have hitems : b.scopes.items e =
          (if b.direct || i.label?.isNone then [⟨i, b.direct⟩] else []).map (f.slot, ·) := by
        simp only [Scopes.items, scopes, direct, hf, hi, List.map_cons]
        split <;> rfl
      rw [hitems, ← Item.ofEvent?_eq_some_iff.1 hi]
      exact h.take_item hf i

theorem takeAll (h : b.Gathered items) (es : List (Except ScanFault Event)) :
    (b.takeAll es).Gathered (items ++ b.scopes.bodies es) := by
  induction es generalizing b items with
  | nil =>
    rw [Scopes.bodies, List.append_nil]
    exact h
  | cons e es ih =>
    have hscopes : (b.take e).scopes = b.scopes.take e := by
      rw [scopes_take]
      cases e <;> rfl
    rw [Scopes.bodies, ← List.append_assoc, ← hscopes]
    exact ih (h.take e)

end Gathered

end Builder

/-- Every container has the members, and the line, that its body declares, and no item of its body
is malformed. -/
theorem filled_recorded {v : Vocabulary} {path fileId source : String} {i : Nat} {c : Container}
    (hc : (recorded v path fileId source)[i]? = some (some c)) :
    Filled c (bodyOf v source i) ∧ IsSound (bodyOf v source i) := by
  have hstart : Builder.Gathered [] (Builder.start path fileId) :=
    ⟨.start path fileId, ⟨[], .start path fileId⟩, fun _ _ => rfl⟩
  rw [recorded_eq] at hc
  exact (hstart.takeAll (Markup.scan v source)).keeps.complete i c hc

end HeaderReflection
