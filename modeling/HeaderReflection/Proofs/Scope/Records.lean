import HeaderReflection.Proofs.Scope.Gains

/-!
# A forest of events is recorded as it is nested

A builder that takes the events of a forest is back in the scopes that it started in. What it has
gained is read off the forest: the frame around the forest has its items, and each of its
containers has a slot with what is recorded of it.

* `Builder.Ran.container`, `Builder.Ran.namespace`, `Builder.Ran.braces`: what a scope does, from
  what its body does.
* `Forest.ran`: what the events of a forest do to a builder.
* `Forest.containers_ofEvents`: the records of a forest are the outcomes of its containers.
-/

namespace HeaderReflection

open Text (Position)

namespace Builder

/-! ## Scopes with their bodies -/

section Steps

variable {b b' : Builder} {earlier ds : List Declared} {items : List Item}

theorem closeScope_of_lt (hf : ∀ f ∈ b.frames, f.depth < b.depth) :
    b.closeScope = b.closeNamespace := by
  unfold closeScope
  split
  · rename_i f outer h
    have hlt := hf f (by simp [h])
    rw [if_neg (Nat.ne_of_lt hlt)]
  · rfl

theorem closeScope_of_eq {f : Frame} {outer : List Frame} (hf : b.frames = f :: outer)
    (hd : f.depth = b.depth) : b.closeScope = { b with frames := outer }.complete f := by
  rw [closeScope, hf]
  exact if_pos hd

theorem closeNamespace_of_lt (hn : ∀ ns ∈ b.namespaces, ns.depth < b.depth) :
    b.closeNamespace = b := by
  unfold closeNamespace
  split
  · rename_i ns outer h
    have hlt := hn ns (by simp [h])
    rw [if_neg (Nat.ne_of_lt hlt)]
  · rfl

/-- The frames behind a deeper body are those before it. -/
theorem Ran.frames_lt {b₁ : Builder} (h : Ran earlier items ds b₁ b') (hb : b.Bounded)
    (hf : b₁.frames = b.frames) (hd : b₁.depth = b.depth + 1) :
    ∀ f ∈ b'.frames, f.depth < b'.depth := by
  intro f hm
  have hm : f.depth ∈ b.frames.map (·.depth) := hf ▸ h.depths ▸ List.mem_map_of_mem hm
  obtain ⟨g, hg, hgf⟩ := List.mem_map.1 hm
  have hle := hb.frames g hg
  rw [h.depth, hd]
  omega

/-- A pair of braces, from what its body does. -/
theorem Ran.braces (hb : b.Bounded) (h : Ran earlier items ds { b with depth := b.depth + 1 } b')
    (closing : Position) : Ran earlier items ds b (b'.process (.closeBrace closing)) := by
  have hclose : b'.closeScope = b' := by
    rw [closeScope_of_lt (h.frames_lt hb rfl rfl), closeNamespace_of_lt]
    intro ns hns
    have hle := hb.namespaces ns (h.namespaces ▸ hns)
    rw [h.depth]
    exact Nat.lt_succ_of_le hle
  simp only [process, hclose]
  exact ⟨h.path, h.fileId, by simp [h.depth], h.namespaces, h.frames, h.slots, h.names⟩

/-- A namespace, from what its body does. -/
theorem Ran.namespace (hb : b.Bounded) {names : List String}
    (h : Ran earlier items ds
      { b with depth := b.depth + 1, namespaces := ⟨b.depth + 1, names⟩ :: b.namespaces } b')
    (closing : Position) : Ran earlier items ds b (b'.process (.closeBrace closing)) := by
  have hclose : b'.closeScope = { b' with namespaces := b.namespaces } := by
    rw [closeScope_of_lt (h.frames_lt hb rfl rfl), closeNamespace, h.namespaces]
    simp [h.depth]
  simp only [process, hclose]
  exact ⟨h.path, h.fileId, by simp [h.depth], rfl, h.frames, h.slots, h.names⟩

theorem openContainer_of_class {a e : Excerpt} {c : Container} {fault : Option Fault}
    (hc : b.containerOf a e = (c, fault)) (he : isEnumDeclaration e.text = false)
    (body : Option String) :
    b.openContainer a e body =
      { b with
        depth := b.depth + 1
        frames :=
          { slot := b.slots.length, container := c, depth := b.depth + 1
            visibility := c.kind.defaultVisibility, fault } :: b.frames
        slots := b.slots ++ [none]
        names := if fault.isNone then b.names ++ [c.qualifiedName] else b.names } := by
  simp only [openContainer, hc, he]
  cases fault <;> rfl

theorem complete_eq (b : Builder) (f : Frame) :
    b.complete f =
      { b with
        slots := if f.fault = none then b.slots.set f.slot (some f.container) else b.slots
        faults := (b.complete f).faults
        warnings := (b.complete f).warnings } := by
  unfold complete
  cases h : f.fault with
  | some fault => simp [report]
  | none =>
    dsimp only
    split <;> simp [warn]

/-- A class or struct, from what its body does. -/
theorem Ran.container {d : Declared} (hw : b.Within d.namespaces d.containers)
    (hk : Taken earlier b.names) (hd : d.enumerators = [])
    (hclass : isEnumDeclaration d.head.declaration.text = false) (body : Option String)
    (h : Ran (earlier ++ [d]) d.items ds
      (b.openContainer d.head.attributes d.head.declaration body) b')
    (closing : Position) : Ran earlier [] (d :: ds) b (b'.process (.closeBrace closing)) := by
  revert h
  rcases hc : b.containerOf d.head.attributes d.head.declaration with ⟨c, fault⟩
  rw [openContainer_of_class hc hclass]
  intro h
  obtain ⟨g, hframes, e, rfl, he⟩ := h.frames
  have hclose := closeScope_of_eq hframes h.depth.symm
  have hout := outcome_of_containerOf hw hk hc he
  simp only [process, hclose]
  rw [complete_eq]
  refine ⟨h.path, h.fileId, by simp [h.depth], h.namespaces, .nil _, ?_, by simpa using h.names⟩
  -- The slot of the container is the first one behind those that were there.
  have hset (x : Option Container) (xs : List (Option Container)) :
      (b.slots ++ none :: xs).set b.slots.length x = b.slots ++ x :: xs := by simp
  have hc' : d.enumerators = c.enumerators := by
    rw [hd, ← containerOf_enumerators (b := b) d.head.attributes d.head.declaration, hc]
  simp only [h.slots, Declared.outcomes, hout, Frame.withItems, hc', List.append_assoc,
    List.singleton_append, hset]
  split <;> rfl

/-- An enum, which is complete with its event. -/
theorem Ran.enum {d : Declared} (hw : b.Within d.namespaces d.containers)
    (hk : Taken earlier b.names) {body : String} (hd : d.enumerators = Enumerator.parseAll body)
    (hi : d.items = [])
    (henum : isEnumDeclaration d.head.declaration.text = true) :
    Ran earlier [] [d] b (b.openContainer d.head.attributes d.head.declaration (some body)) := by
  rcases hc : b.containerOf d.head.attributes d.head.declaration with ⟨c, fault⟩
  have hout := outcome_of_containerOf hw hk hc (e := fault) (by simp [hi])
  have hnames := taken_concat hw hk hc
  simp only [openContainer, hc, henum, if_true]
  cases fault with
  | none =>
    refine ⟨rfl, rfl, rfl, rfl, .nil _, ?_, hnames⟩
    simp [addEnum, Declared.outcomes, hout, hi, hd, Item.properties, Item.methods, Item.accessed,
      Item.bodyLine]
  | some fault =>
    refine ⟨rfl, rfl, rfl, rfl, .nil _, ?_, hnames⟩
    simp [addEnum, report, Declared.outcomes, hout]

end Steps

/-! ## Into a scope -/

section Within

variable {b : Builder} {ns cs : List String}

theorem Bounded.deeper (hb : b.Bounded) {f : Frame} (hf : f ∈ b.frames) : f.depth ≤ b.depth + 1 :=
  Nat.le_succ_of_le (hb.frames f hf)

theorem Bounded.openBrace (hb : b.Bounded) : Bounded { b with depth := b.depth + 1 } where
  frames _ hf := hb.deeper hf
  namespaces n hn := Nat.le_succ_of_le (hb.namespaces n hn)

theorem Bounded.openNamespace (hb : b.Bounded) (names : List String) :
    Bounded
      { b with depth := b.depth + 1, namespaces := ⟨b.depth + 1, names⟩ :: b.namespaces } where
  frames _ hf := hb.deeper hf
  namespaces n hn := by
    rcases List.mem_cons.1 hn with rfl | hn
    · exact Nat.le_refl _
    · exact Nat.le_succ_of_le (hb.namespaces n hn)

theorem Bounded.openContainer (hb : b.Bounded) {a e : Excerpt}
    (he : isEnumDeclaration e.text = false) (body : Option String) :
    (b.openContainer a e body).Bounded := by
  rcases hc : b.containerOf a e with ⟨c, fault⟩
  rw [openContainer_of_class hc he]
  refine ⟨fun f hf => ?_, hb.openBrace.namespaces⟩
  rcases List.mem_cons.1 hf with rfl | hf
  · exact Nat.le_refl _
  · exact hb.deeper hf

theorem direct_openBrace (hb : b.Bounded) (namespaces : List OpenNamespace) :
    direct { b with depth := b.depth + 1, namespaces } = false := by
  unfold direct
  split
  · rfl
  · rename_i h
    have hle := hb.frames _ (h ▸ List.mem_cons_self)
    exact decide_eq_false (Nat.ne_of_lt (Nat.lt_succ_of_le hle))

theorem direct_openContainer {a e : Excerpt} (he : isEnumDeclaration e.text = false)
    (body : Option String) : (b.openContainer a e body).direct = true := by
  rcases hc : b.containerOf a e with ⟨c, fault⟩
  simp [openContainer_of_class hc he, direct]

theorem Within.openNamespace (hw : b.Within ns cs) (names : List String) :
    Within { b with depth := b.depth + 1, namespaces := ⟨b.depth + 1, names⟩ :: b.namespaces }
      (ns ++ names) cs where
  namespaces := by simp [← hw.namespaces]
  containers := hw.containers

theorem Within.openContainer (hw : b.Within ns cs) (h : Head)
    (he : isEnumDeclaration h.declaration.text = false) (body : Option String) :
    (b.openContainer h.attributes h.declaration body).Within ns (cs ++ [h.name]) := by
  rcases hc : b.containerOf h.attributes h.declaration with ⟨c, fault⟩
  have hn : c.name = h.name := by rw [← containerOf_name (b := b), hc]
  rw [openContainer_of_class hc he]
  exact ⟨hw.namespaces, by simp [← hw.containers, hn]⟩

theorem taken_openContainer {earlier : List Declared} {d : Declared}
    (hw : b.Within d.namespaces d.containers) (hk : Taken earlier b.names)
    (he : isEnumDeclaration d.head.declaration.text = false) (body : Option String) :
    Taken (earlier ++ [d]) (b.openContainer d.head.attributes d.head.declaration body).names := by
  rcases hc : b.containerOf d.head.attributes d.head.declaration with ⟨c, fault⟩
  rw [openContainer_of_class hc he]
  exact taken_concat hw hk hc

end Within

/-- What a forest does behind a step, given what it does by itself. -/
theorem Ran.before {forest : Forest} {b b' : Builder} {earlier ds : List Declared}
    {items : List Item} (step : Ran earlier items ds b b')
    (hrest : ∀ {b : Builder} {earlier : List Declared} {ns cs : List String}, b.Bounded →
      b.Within ns cs → Taken earlier b.names →
        Ran earlier (forest.items b.direct) (forest.declared ns cs) b (b.takeAll forest.events))
    {ns cs : List String} (hb : b.Bounded) (hw : b.Within ns cs) :
    Ran earlier (items ++ forest.items b.direct) (ds ++ forest.declared ns cs) b
      (b'.takeAll forest.events) := by
  have after := hrest (step.bounded hb) (step.within hw) step.names
  rw [step.direct] at after
  exact step.trans after

end Builder

namespace Forest

open Builder

/-- The events of a forest leave a builder in the scopes that it was in, with the items and the
containers of the forest. -/
theorem ran (forest : Forest) {b : Builder} {earlier : List Declared} {ns cs : List String}
    (hb : b.Bounded) (hw : b.Within ns cs) (hk : Taken earlier b.names) :
    Ran earlier (forest.items b.direct) (forest.declared ns cs) b (b.takeAll forest.events) := by
  induction forest generalizing b earlier ns cs with
  | nil => exact .refl hk
  | item i rest ih =>
    have step := take_item hk i
    have whole := step.before ih hb hw
    rw [items, declared]
    split at whole <;> simp_all [events, takeAll]
  | enum head he body rest ih =>
    let d : Declared :=
      { namespaces := ns, containers := cs, head, enumerators := Enumerator.parseAll body }
    have step := Ran.enum (d := d) hw hk rfl rfl he
    exact step.before ih hb hw
  | container head he body inner closing rest ihInner ihRest =>
    let d : Declared := { namespaces := ns, containers := cs, head, items := inner.items true }
    have within := ihInner (b := b.openContainer head.attributes head.declaration body)
      (hb.openContainer he body) (hw.openContainer head he body)
      (taken_openContainer (d := d) hw hk he body)
    rw [direct_openContainer he] at within
    have step := Ran.container (d := d) hw hk rfl he body within closing
    rw [events, takeAll, List.foldl_cons, List.foldl_append]
    exact step.before ihRest hb hw
  | «namespace» position name inner closing rest ihInner ihRest =>
    have within := @ihInner _ earlier _ _ (hb.openNamespace (namespaceNames name.text))
      (hw.openNamespace _) hk
    rw [direct_openBrace hb] at within
    have step := within.namespace hb closing
    rw [events, takeAll, List.foldl_cons, List.foldl_append]
    exact step.before ihRest hb hw
  | braces position inner closing rest ihInner ihRest =>
    have within := @ihInner _ earlier _ _ hb.openBrace ⟨hw.namespaces, hw.containers⟩ hk
    rw [direct_openBrace hb] at within
    have step := within.braces hb closing
    rw [events, takeAll, List.foldl_cons, List.foldl_append]
    exact step.before ihRest hb hw

/-- The records of a forest of events are those of the containers that survive, in the order in
which they are opened. -/
theorem containers_ofEvents (path fileId : String) (forest : Forest) :
    (FileModel.ofEvents path fileId forest.events).containers
      = (Declared.outcomes fileId [] (forest.declared [] [])).filterMap id := by
  have hb : Bounded { path, fileId } := ⟨by simp, by simp⟩
  have hw : Within { path, fileId } [] [] := ⟨rfl, rfl⟩
  have h := forest.ran hb hw (show Taken [] [] by simp [Taken])
  rw [FileModel.ofEvents, finish, h.slots]
  simp

end Forest

end HeaderReflection
