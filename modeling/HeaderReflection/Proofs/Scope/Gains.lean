import HeaderReflection.Proofs.Scope.Items

/-!
# What a builder gains

From the start of a scope to its end, a builder gains items of the container around it and records
of the containers in it, and is back in the scopes that it was in.

* `Builder.Ran`: a builder and a later one in the same scopes.
* `Builder.take_item_frame`: an item changes the innermost frame alone.
* `Builder.outcome_of_containerOf`: how a container is opened decides what is recorded of it.
-/

namespace HeaderReflection

open Text (Position)

namespace Builder

/-! ## Builders and what they have gained -/

/-- No scope that is open is deeper than the builder stands. -/
structure Bounded (b : Builder) : Prop where
  frames : ∀ f ∈ b.frames, f.depth ≤ b.depth
  namespaces : ∀ ns ∈ b.namespaces, ns.depth ≤ b.depth

/-- The names of the open namespaces and of the open containers, outermost first. -/
structure Within (b : Builder) (namespaces containers : List String) : Prop where
  namespaces : b.namespaces.reverse.flatMap (·.names) = namespaces
  containers : b.frames.reverse.map (·.container.name) = containers

/-- The names that some containers take are those of the ones whose headers and attributes
parse. -/
def Taken (earlier : List Declared) (names : List String) : Prop :=
  ∀ q, q ∈ names ↔ ∃ e ∈ earlier, e.head.parses = true ∧ e.qualifiedName = q

/-- The innermost frame has gained some items. -/
def FramesGain (items : List Item) : List Frame → List Frame → Prop
  | [], gs => gs = []
  | f :: outer, gs => ∃ g, gs = g :: outer ∧ f.Gains items g

/-- What a builder has gained on the way to another one in the same scopes: items of its innermost
container, and containers. The containers before it are given. -/
structure Ran (earlier : List Declared) (items : List Item) (ds : List Declared)
    (b b' : Builder) : Prop where
  path : b'.path = b.path
  fileId : b'.fileId = b.fileId
  depth : b'.depth = b.depth
  namespaces : b'.namespaces = b.namespaces
  frames : FramesGain items b.frames b'.frames
  slots : b'.slots = b.slots ++ Declared.outcomes b.fileId earlier ds
  names : Taken (earlier ++ ds) b'.names

namespace FramesGain

variable {items js : List Item} {fs gs hs : List Frame}

theorem nil (fs : List Frame) : FramesGain [] fs fs := by
  cases fs with
  | nil => rfl
  | cons f outer => exact ⟨f, rfl, .nil f⟩

theorem trans (h : FramesGain items fs gs) (h' : FramesGain js gs hs) :
    FramesGain (items ++ js) fs hs := by
  cases fs with
  | nil =>
    obtain rfl : gs = [] := h
    exact h'
  | cons f outer =>
    obtain ⟨g, rfl, hg⟩ := h
    obtain ⟨k, rfl, hk⟩ := h'
    exact ⟨k, rfl, hg.trans hk⟩

theorem map_eq {α : Type} (h : FramesGain items fs gs) (p : Frame → α)
    (hp : ∀ {f g}, f.Gains items g → p g = p f) : gs.map p = fs.map p := by
  cases fs with
  | nil =>
    obtain rfl : gs = [] := h
    rfl
  | cons f outer =>
    obtain ⟨g, rfl, hg⟩ := h
    simp [hp hg]

end FramesGain

namespace Ran

variable {b b' b'' : Builder} {earlier ds es : List Declared} {items js : List Item}

theorem refl (h : Taken earlier b.names) : Ran earlier [] [] b b :=
  ⟨rfl, rfl, rfl, rfl, .nil _, by simp [Declared.outcomes], by simpa using h⟩

theorem trans (h : Ran earlier items ds b b') (h' : Ran (earlier ++ ds) js es b' b'') :
    Ran earlier (items ++ js) (ds ++ es) b b'' where
  path := h'.path.trans h.path
  fileId := h'.fileId.trans h.fileId
  depth := h'.depth.trans h.depth
  namespaces := h'.namespaces.trans h.namespaces
  frames := h.frames.trans h'.frames
  slots := by rw [h'.slots, h.slots, h.fileId, Declared.outcomes_append, List.append_assoc]
  names := by simpa using h'.names

theorem depths (h : Ran earlier items ds b b') :
    b'.frames.map (·.depth) = b.frames.map (·.depth) :=
  h.frames.map_eq _ fun hg => hg.depth

theorem bounded (h : Ran earlier items ds b b') (hb : b.Bounded) : b'.Bounded where
  frames := by
    have hd := h.depths
    rw [h.depth]
    intro f hf
    have hf : f.depth ∈ b.frames.map (·.depth) := hd ▸ List.mem_map_of_mem hf
    obtain ⟨g, hg, hgf⟩ := List.mem_map.1 hf
    exact hgf ▸ hb.frames g hg
  namespaces := by
    rw [h.namespaces, h.depth]
    exact hb.namespaces

theorem within (h : Ran earlier items ds b b') {ns cs : List String} (hw : b.Within ns cs) :
    b'.Within ns cs where
  namespaces := by
    rw [h.namespaces]
    exact hw.namespaces
  containers := by
    rw [List.map_reverse, h.frames.map_eq (·.container.name) fun hg => hg.name, ← List.map_reverse]
    exact hw.containers

theorem direct (h : Ran earlier items ds b b') : b'.direct = b.direct := by
  have hd := h.depths
  unfold Builder.direct
  rw [h.depth]
  cases hf : b.frames <;> cases hf' : b'.frames <;> simp_all

/-- A step that changes the innermost frame alone. -/
theorem of_gains (hk : Taken earlier b.names) {f g : Frame} {outer : List Frame}
    (hf : b.frames = f :: outer) (hg : f.Gains items g) :
    Ran earlier items [] b { b with frames := g :: outer } :=
  ⟨rfl, rfl, rfl, rfl, by rw [hf]; exact ⟨g, rfl, hg⟩, by simp [Declared.outcomes],
    by simpa using hk⟩

/-- A step outside of all containers that changes no more than what is reported. -/
theorem of_reports (hk : Taken earlier b.names) (hf : b.frames = []) (faults : List Fault)
    (warnings : List String) : Ran earlier items [] b { b with faults, warnings } :=
  ⟨rfl, rfl, rfl, rfl, by simp [FramesGain, hf], by simp [Declared.outcomes], by simpa using hk⟩

end Ran

/-- An item changes the innermost frame alone. Its label counts only directly in a body. -/
theorem take_item_frame {b : Builder} {f : Frame} {outer : List Frame} (hf : b.frames = f :: outer)
    (i : Item) : ∃ g, b.take i.event = { b with frames := g :: outer } ∧
      f.Gains (if b.direct || i.label?.isNone then [i] else []) g := by
  cases i with
  | property position a d =>
    obtain ⟨g, hg, hgains⟩ := addProperty_gains hf position a d
    exact ⟨g, hg, by simpa [Item.label?] using hgains⟩
  | function position a d =>
    obtain ⟨g, hg, hgains⟩ := addMethod_gains hf position a d
    exact ⟨g, hg, by simpa [Item.label?] using hgains⟩
  | generatedBody position a =>
    obtain ⟨g, hg, hgains⟩ := markBody_gains hf position a
    exact ⟨g, hg, by simpa [Item.label?] using hgains⟩
  | fault e =>
    obtain ⟨g, hg, hgains⟩ := fail_gains hf e (e.inFile b.path)
    exact ⟨g, hg, by simpa [Item.label?] using hgains⟩
  | label position v =>
    cases hd : b.direct with
    | true =>
      obtain ⟨g, hg, hgains⟩ := setVisibility_gains hf hd position v
      exact ⟨g, hg, by simpa using hgains⟩
    | false =>
      refine ⟨f, ?_, by simpa [Item.label?] using .nil f⟩
      simpa [Item.event, take, process, ← hf] using setVisibility_of_not_direct hd v

/-- Outside of all containers an item changes no more than what is reported. -/
theorem take_item_outside {b : Builder} (hf : b.frames = []) (i : Item) :
    ∃ faults warnings, b.take i.event = { b with faults, warnings } := by
  refine ⟨(b.take i.event).faults, (b.take i.event).warnings, ?_⟩
  cases i with
  | property position a d => simp [Item.event, take, process, addProperty, hf, report]
  | function position a d => simp [Item.event, take, process, addMethod, hf, report]
  | generatedBody position a => simp [Item.event, take, process, markBody, hf, warn]
  | fault e => simp [Item.event, take, fail, hf, report]
  | label position v =>
    have hsame : b.take (Item.label position v).event = b :=
      setVisibility_of_not_direct (by simp [direct, hf]) v
    rw [hsame]

theorem take_item {b : Builder} {earlier : List Declared} (hk : Taken earlier b.names) (i : Item) :
    Ran earlier (if b.direct || i.label?.isNone then [i] else []) [] b (b.take i.event) := by
  cases hf : b.frames with
  | nil =>
    obtain ⟨faults, warnings, htake⟩ := take_item_outside hf i
    rw [htake]
    exact .of_reports hk hf _ _
  | cons f outer =>
    obtain ⟨g, htake, hgains⟩ := take_item_frame hf i
    rw [htake]
    exact .of_gains hk hf hgains

/-! ## Containers as they are opened -/

section Opening

variable {b : Builder} {earlier : List Declared} {d : Declared}

theorem Within.scope_eq (hw : b.Within d.namespaces d.containers) : b.scope = d.scope := by
  rw [scope, hw.namespaces, hw.containers, Declared.scope]

/-- A container is opened in the scope and the file of its builder, and is empty. -/
theorem containerOf_empty (b : Builder) (a e : Excerpt) :
    ∃ name kind bases underlying attributes, (b.containerOf a e).1 =
      { name, kind, bases, underlying, attributes
        scope := b.scope, fileId := b.fileId, position := e.position } := by
  unfold containerOf
  cases Header.parse e.text with
  | error _ => exact ⟨_, _, _, _, _, rfl⟩
  | ok header =>
    cases parseAttributes b.path a with
    | error _ => exact ⟨_, _, _, _, _, rfl⟩
    | ok attributes =>
      dsimp only
      split <;> exact ⟨_, _, _, _, _, rfl⟩

theorem containerOf_scope (a e : Excerpt) : (b.containerOf a e).1.scope = b.scope := by
  obtain ⟨_, _, _, _, _, h⟩ := b.containerOf_empty a e
  rw [h]

theorem containerOf_name (h : Head) :
    (b.containerOf h.attributes h.declaration).1.name = h.name := by
  unfold containerOf Head.name
  cases Header.parse h.declaration.text with
  | error _ => rfl
  | ok header =>
    cases parseAttributes b.path h.attributes with
    | error _ => rfl
    | ok attributes =>
      dsimp only
      split <;> rfl

theorem containerOf_qualifiedName (hw : b.Within d.namespaces d.containers) :
    (b.containerOf d.head.attributes d.head.declaration).1.qualifiedName = d.qualifiedName := by
  rw [Container.qualifiedName, containerOf_scope, containerOf_name, hw.scope_eq,
    Declared.qualifiedName]

theorem mem_names_iff (hk : Taken earlier b.names) :
    d.qualifiedName ∈ b.names ↔ ¬ d.Fresh earlier := by
  simp [hk d.qualifiedName, Declared.Fresh]

/-- A container has no fault as it is opened if its header and attributes parse and its name is
fresh. -/
theorem containerOf_fault_eq_none (hw : b.Within d.namespaces d.containers)
    (hk : Taken earlier b.names) :
    (b.containerOf d.head.attributes d.head.declaration).2 = none
      ↔ d.head.parses = true ∧ d.Fresh earlier := by
  have hq := containerOf_qualifiedName hw
  have hn := mem_names_iff (d := d) hk
  revert hq
  unfold containerOf Head.parses
  cases hh : Header.parse d.head.declaration.text with
  | error _ => simp [Except.isOk, Except.toBool]
  | ok header =>
    rw [parseAttributes_eq]
    cases ha : Attributes.parse d.head.attributes.text d.head.attributes.position with
    | error _ => simp [Except.isOk, Except.toBool]
    | ok attributes =>
      simp only [ok_mapError, Except.isOk, Except.toBool, Bool.and_self, true_and]
      split
      · rename_i hc
        intro hq
        rw [List.contains_iff_mem, hq, hn] at hc
        simp [hc]
      · rename_i hc
        intro hq
        rw [List.contains_iff_mem, hq, hn, Decidable.not_not] at hc
        simp [hc]

/-- The record of a container that is opened without a fault. -/
theorem record_of_containerOf (hw : b.Within d.namespaces d.containers) {c : Container}
    (h : b.containerOf d.head.attributes d.head.declaration = (c, none)) :
    d.record b.fileId = some
      { c with
        properties := c.properties ++ Item.properties c.kind.defaultVisibility d.items
        methods := c.methods ++ Item.methods c.kind.defaultVisibility d.items
        generatedBodyLine := (Item.bodyLine d.items).or c.generatedBodyLine
        enumerators := d.enumerators } := by
  revert h
  unfold containerOf Declared.record
  cases hh : Header.parse d.head.declaration.text with
  | error _ => simp
  | ok header =>
    rw [parseAttributes_eq]
    cases ha : Attributes.parse d.head.attributes.text d.head.attributes.position with
    | error _ => simp
    | ok attributes =>
      simp only [ok_mapError]
      split
      · simp
      · intro h
        obtain ⟨rfl, -⟩ := Prod.mk.inj h
        simp [hw.scope_eq]

theorem containerOf_enumerators (a e : Excerpt) : (b.containerOf a e).1.enumerators = [] := by
  obtain ⟨_, _, _, _, _, h⟩ := b.containerOf_empty a e
  rw [h]

/-- What is recorded of a container, from how it is opened and from whether there is a fault at its
end. -/
theorem outcome_of_containerOf (hw : b.Within d.namespaces d.containers)
    (hk : Taken earlier b.names) {c : Container} {fault e : Option Fault}
    (h : b.containerOf d.head.attributes d.head.declaration = (c, fault))
    (he : e = none ↔ fault = none ∧ ∀ i ∈ d.items, i.isSound = true) :
    d.outcome b.fileId earlier = if e = none then some
      { c with
        properties := c.properties ++ Item.properties c.kind.defaultVisibility d.items
        methods := c.methods ++ Item.methods c.kind.defaultVisibility d.items
        generatedBodyLine := (Item.bodyLine d.items).or c.generatedBodyLine
        enumerators := d.enumerators } else none := by
  have hf := containerOf_fault_eq_none hw hk
  rw [h] at hf
  have hs : d.Survives earlier ↔ e = none := by
    rw [he, hf, Declared.Survives, and_assoc]
  rw [Declared.outcome]
  by_cases hn : e = none
  · rw [if_pos (hs.2 hn), if_pos hn]
    obtain ⟨rfl, -⟩ := he.1 hn
    exact record_of_containerOf hw h
  · rw [if_neg (mt hs.1 hn), if_neg hn]

/-- A container takes its name if it has no fault. -/
theorem taken_concat (hw : b.Within d.namespaces d.containers) (hk : Taken earlier b.names)
    {c : Container} {fault : Option Fault}
    (h : b.containerOf d.head.attributes d.head.declaration = (c, fault)) :
    Taken (earlier ++ [d]) (if fault.isNone then b.names ++ [c.qualifiedName] else b.names) := by
  have hq := containerOf_qualifiedName hw
  have hf := containerOf_fault_eq_none hw hk
  have hn := mem_names_iff (d := d) hk
  rw [h] at hq hf
  dsimp only at hq hf
  -- A name of the containers up to `d` is one of those before it, or that of `d`.
  have concat (q : String) :
      (∃ e ∈ earlier ++ [d], e.head.parses = true ∧ e.qualifiedName = q)
        ↔ q ∈ b.names ∨ d.head.parses = true ∧ d.qualifiedName = q := by
    simp only [List.mem_append, or_and_right, exists_or, hk q, List.mem_singleton,
      exists_eq_left]
  intro q
  rw [concat]
  cases fault with
  | none => simp [hq, (hf.1 rfl).1, eq_comm (a := q)]
  | some fault =>
    have hd : d.head.parses = true → d.qualifiedName ∈ b.names := by
      rw [hn]
      intro hp hfresh
      simpa using hf.2 ⟨hp, hfresh⟩
    constructor
    · exact .inl
    · rintro (hm | ⟨hp, rfl⟩)
      · exact hm
      · exact hd hp

end Opening

end Builder

end HeaderReflection
