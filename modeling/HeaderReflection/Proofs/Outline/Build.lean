import HeaderReflection.Proofs.Outline.Events
import HeaderReflection.Container.Build

/-!
# Outlines are built back from their texts

The events of an outline leave a builder as it was, but for the containers that the outline
declares.

* `ContainerOutline.run`: the events of a container add it and the containers in it.
* `FileModel.ofSource_listText`: what a file declares is what is reflected.
-/

namespace HeaderReflection

/-! ## Containers without places -/

/-- The property without its place. -/
def Property.unplaced (p : Property) : Property :=
  { p with position := .start }

/-- The function without its place. -/
def Method.unplaced (m : Method) : Method :=
  { m with position := .start }

/-- The container without its places. -/
def Container.unplaced (c : Container) : Container :=
  { c with
    position := .start
    properties := c.properties.map Property.unplaced
    methods := c.methods.map Method.unplaced
    generatedBodyLine := c.generatedBodyLine.map fun _ => 1 }

/-- The container with the members that stand in its body, given the access at the first of
them. -/
def Container.withMembers (c : Container) (visibility : Visibility) (ms : List MemberOutline) :
    Container :=
  { c with
    properties := c.properties ++ MemberOutline.properties visibility ms
    methods := c.methods ++ MemberOutline.methods visibility ms
    generatedBodyLine := (MemberOutline.bodyLine ms).or c.generatedBodyLine }

@[simp] theorem Container.qualifiedName_unplaced (c : Container) :
    c.unplaced.qualifiedName = c.qualifiedName := rfl

theorem map_qualifiedName_unplaced (cs : List Container) :
    (cs.map Container.unplaced).map Container.qualifiedName = cs.map Container.qualifiedName := by
  rw [List.map_map]
  rfl

/-! ## Events with their places -/

section Signs

variable {e : Event} {a d : String}

theorem exists_of_sign_container {body : Option String} (h : e.sign = .container a d body) :
    ∃ place attributes declaration, e = .container place attributes declaration body ∧
      attributes.text = a ∧ declaration.text = d := by
  cases e with
  | container place attributes declaration body' =>
    obtain ⟨rfl, rfl, rfl⟩ := Sign.container.inj h
    exact ⟨place, attributes, declaration, rfl, rfl, rfl⟩
  | _ => cases h

theorem exists_of_sign_property (h : e.sign = .property a d) :
    ∃ place attributes declaration, e = .property place attributes declaration ∧
      attributes.text = a ∧ declaration.text = d := by
  cases e with
  | property place attributes declaration =>
    obtain ⟨rfl, rfl⟩ := Sign.property.inj h
    exact ⟨place, attributes, declaration, rfl, rfl, rfl⟩
  | _ => cases h

theorem exists_of_sign_function (h : e.sign = .function a d) :
    ∃ place attributes declaration, e = .function place attributes declaration ∧
      attributes.text = a ∧ declaration.text = d := by
  cases e with
  | function place attributes declaration =>
    obtain ⟨rfl, rfl⟩ := Sign.function.inj h
    exact ⟨place, attributes, declaration, rfl, rfl, rfl⟩
  | _ => cases h

theorem exists_of_sign_generatedBody (h : e.sign = .generatedBody) :
    ∃ place attributes, e = .generatedBody place attributes := by
  cases e with
  | generatedBody place attributes => exact ⟨place, attributes, rfl⟩
  | _ => cases h

theorem exists_of_sign_label {v : Visibility} (h : e.sign = .label v) :
    ∃ place, e = .label place v := by
  cases e with
  | label place visibility =>
    obtain rfl := Sign.label.inj h
    exact ⟨place, rfl⟩
  | _ => cases h

theorem exists_of_sign_openNamespace (h : e.sign = .openNamespace a) :
    ∃ place name, e = .openNamespace place name ∧ name.text = a := by
  cases e with
  | openNamespace place name => exact ⟨place, name, rfl, Sign.openNamespace.inj h⟩
  | _ => cases h

theorem exists_of_sign_closeBrace (h : e.sign = .closeBrace) : ∃ place, e = .closeBrace place := by
  cases e with
  | closeBrace place => exact ⟨place, rfl⟩
  | _ => cases h

end Signs

theorem Attributes.Canonical.parseAttributes {m : Attributes} (h : m.Canonical) {e : Excerpt}
    (he : e.text = m.render) (path : String) : parseAttributes path e = .ok m := by
  rw [HeaderReflection.parseAttributes, he, h.parse_text]
  rfl

namespace Builder

/-! ## Builders with more containers -/

/-- The builder with containers that are complete. -/
def withContainers (b : Builder) (cs : List Container) (ws : List String) : Builder :=
  { b with
    slots := b.slots ++ cs.map some
    names := b.names ++ cs.map Container.qualifiedName
    warnings := b.warnings ++ ws }

@[simp] theorem withContainers_nil (b : Builder) : b.withContainers [] [] = b := by
  simp [withContainers]

@[simp] theorem withContainers_withContainers (b : Builder) (cs ds : List Container)
    (ws vs : List String) : (b.withContainers cs ws).withContainers ds vs =
      b.withContainers (cs ++ ds) (ws ++ vs) := by
  simp [withContainers]

@[simp] theorem scope_withContainers (b : Builder) (cs : List Container) (ws : List String) :
    (b.withContainers cs ws).scope = b.scope := rfl

theorem takeAll_cons (b : Builder) (e : Event) (es : List Event) :
    b.takeAll ((e :: es).map .ok) = (b.process e).takeAll (es.map .ok) := rfl

theorem takeAll_map_append (b : Builder) (es fs : List Event) :
    b.takeAll ((es ++ fs).map .ok) = (b.takeAll (es.map .ok)).takeAll (fs.map .ok) := by
  rw [List.map_append, takeAll_append]

variable {b : Builder}

theorem scope_of_name {f g : Frame} {outer : List Frame} (h : b.frames = g :: outer)
    (hname : f.container.name = g.container.name) :
    scope { b with frames := f :: outer } = b.scope := by
  simp [scope, h, hname]

/-! ## Opening containers -/

/-- A container whose parts are read and whose name is new. -/
theorem containerOf_eq {attributes declaration : Excerpt} {m : Attributes} {header : Header}
    (hm : parseAttributes b.path attributes = .ok m)
    (hheader : Header.parse declaration.text = .ok header)
    (hnew : "::".intercalate (b.scope ++ [header.name]) ∉ b.names) :
    b.containerOf attributes declaration =
      ({ name := header.name, kind := header.kind, scope := b.scope, fileId := b.fileId
         position := declaration.position, bases := header.bases, attributes := m
         underlying := header.underlying }, none) := by
  unfold containerOf
  rw [hm, hheader]
  simp only [Container.qualifiedName, List.contains_eq_mem, hnew, decide_false,
    Bool.false_eq_true, if_false]

theorem isEnumDeclaration_eq {text : String} {texts : List String} {f : Char → Bool}
    (h : Spells text.toList texts f) :
    isEnumDeclaration text = decide (texts.head? = some "enum") := by
  rw [isEnumDeclaration, tokens_of_spells h]

/-- The frame of a class or struct that is declared here. -/
def frameOf (b : Builder) (m : Attributes) (header : RecordHeader) (position : Text.Position) :
    Frame where
  slot := b.slots.length
  container :=
    { name := header.name, kind := header.kind, scope := b.scope, fileId := b.fileId, position
      bases := header.bases.map Base.type, attributes := m }
  depth := b.depth + 1
  visibility := header.kind.defaultVisibility
  fault := none

/-- The builder behind the opening brace of a class or struct. -/
def opened (b : Builder) (m : Attributes) (header : RecordHeader) (position : Text.Position) :
    Builder :=
  { b with
    depth := b.depth + 1
    slots := b.slots ++ [none]
    names := b.names ++ ["::".intercalate (b.scope ++ [header.name])]
    frames := b.frameOf m header position :: b.frames }

@[simp] theorem scope_opened (m : Attributes) (header : RecordHeader) (position : Text.Position) :
    (b.opened m header position).scope = b.scope ++ [header.name] := by
  simp [scope, opened, frameOf]

/-- A class or struct is opened. -/
theorem process_record {m : Attributes} {header : RecordHeader} {e : Event}
    (he : e.sign = .container m.render header.text none) (hm : m.Canonical)
    (hheader : header.Canonical) (hnew : "::".intercalate (b.scope ++ [header.name]) ∉ b.names) :
    ∃ position, b.process e = b.opened m header position := by
  obtain ⟨place, attributes, declaration, rfl, ha, hd⟩ := exists_of_sign_container he
  have hparse : Header.parse declaration.text =
      .ok ⟨header.kind, header.name, header.bases.map Base.type, none⟩ := by
    rw [hd, hheader.parse_text]
  have hcontainer := containerOf_eq (hm.parseAttributes ha b.path) hparse hnew
  have henum : isEnumDeclaration declaration.text = false := by
    rw [hd, isEnumDeclaration_eq hheader.spells_text.1]
    simpa using header.head_tokens
  refine ⟨declaration.position, ?_⟩
  simp only [process, openContainer, hcontainer, henum, Option.isNone_none, if_true,
    Bool.false_eq_true, if_false]
  rfl

/-- An enum is complete at once. -/
theorem process_enum {m : Attributes} {header : EnumHeader} {enumerators : List Enumerator}
    {e : Event} (he : e.sign = .container m.render header.text (some (entriesText enumerators ++ " ")))
    (hm : m.Canonical) (hheader : header.Canonical) (hes : ∀ v ∈ enumerators, v.Canonical)
    (hnew : "::".intercalate (b.scope ++ [header.name]) ∉ b.names) :
    ∃ c, b.process e = b.withContainers [c] [] ∧
      [c.unplaced] = ContainerOutline.declared b.fileId b.scope (.enum m header enumerators) := by
  obtain ⟨place, attributes, declaration, rfl, ha, hd⟩ := exists_of_sign_container he
  have hparse : Header.parse declaration.text =
      .ok ⟨.enum, header.name, [], header.underlying⟩ := by
    rw [hd, hheader.parse_text]
  have hcontainer := containerOf_eq (hm.parseAttributes ha b.path) hparse hnew
  have henum : isEnumDeclaration declaration.text = true := by
    rw [hd, isEnumDeclaration_eq hheader.spells_text.1]
    simpa using header.head_tokens
  refine ⟨{ name := header.name, kind := .enum, scope := b.scope, fileId := b.fileId
            position := declaration.position, attributes := m, enumerators
            underlying := header.underlying }, ?_, rfl⟩
  simp only [process, openContainer, hcontainer, henum, Option.isNone_none, if_true, addEnum,
    Enumerator.parseAll_text hes, withContainers, List.append_nil]
  rfl

/-! ## Members -/

section Members

variable {frame : Frame} {outer : List Frame} {e : Event}

theorem process_property {m : Attributes} {x : Variable} (hframes : b.frames = frame :: outer)
    (he : e.sign = .property m.render x.text) (hm : m.Canonical) (hx : x.Canonical) :
    ∃ position, b.process e =
      { b with
        frames := { frame with container := { frame.container with
          properties := frame.container.properties ++
            [{ name := x.name, type := x.type, visibility := frame.visibility
               attributes := m, position }] } } :: outer } := by
  obtain ⟨place, attributes, declaration, rfl, ha, hd⟩ := exists_of_sign_property he
  have hname : x.name ≠ "" := ne_empty_of_isIdentifier hx.name.1
  have hparse : Variable.parse declaration.text = .ok x := by
    rw [hd, hx.parse_text]
  refine ⟨declaration.position, ?_⟩
  simp only [process, addProperty, hframes, hm.parseAttributes ha, hparse, hname, if_false]

theorem process_function {m : Attributes} {s : Signature} (hframes : b.frames = frame :: outer)
    (he : e.sign = .function m.render s.text) (hm : m.Canonical) (hs : s.Canonical) :
    ∃ position, b.process e =
      { b with
        frames := { frame with container := { frame.container with
          methods := frame.container.methods ++
            [{ signature := s, visibility := frame.visibility
               attributes := m, position }] } } :: outer } := by
  obtain ⟨place, attributes, declaration, rfl, ha, hd⟩ := exists_of_sign_function he
  have hparse : Signature.parse declaration.text = .ok s := by
    rw [hd, hs.parse_text]
  refine ⟨declaration.position, ?_⟩
  simp only [process, addMethod, hframes, hm.parseAttributes ha, hparse]

theorem process_generatedBody (hframes : b.frames = frame :: outer)
    (he : e.sign = .generatedBody) :
    ∃ line, b.process e =
      { b with frames := { frame with container :=
          { frame.container with generatedBodyLine := some line } } :: outer } := by
  obtain ⟨place, attributes, rfl⟩ := exists_of_sign_generatedBody he
  refine ⟨place.line, ?_⟩
  simp only [process, markBody, hframes]

theorem process_label {visibility : Visibility} (hframes : b.frames = frame :: outer)
    (hdepth : frame.depth = b.depth) (he : e.sign = .label visibility) :
    b.process e = { b with frames := { frame with visibility } :: outer } := by
  obtain ⟨place, rfl⟩ := exists_of_sign_label he
  simp only [process, setVisibility, hframes, hdepth, if_true]

/-- The end of a class or struct completes it. -/
theorem process_close (hframes : b.frames = frame :: outer) (hdepth : frame.depth = b.depth)
    (hfault : frame.fault = none) (he : e.sign = .closeBrace) :
    ∃ ws, b.process e =
      { b with
        depth := b.depth - 1
        frames := outer
        slots := b.slots.set frame.slot (some frame.container)
        warnings := b.warnings ++ ws } := by
  obtain ⟨place, rfl⟩ := exists_of_sign_closeBrace he
  simp only [process, closeScope, hframes, hdepth, if_true, complete, hfault]
  split
  · exact ⟨_, rfl⟩
  · exact ⟨[], by rw [List.append_nil]⟩

end Members

end Builder

/-! ## Containers with their members -/

section Runs

variable {frame : Frame} {outer : List Frame} {visibility : Visibility} {ms : List MemberOutline}
  {c : Container}

theorem withMembers_property {m : Attributes} {x : Variable} {position : Text.Position} :
    Container.withMembers (Container.unplaced { c with
      properties := c.properties ++
        [{ name := x.name, type := x.type, visibility, attributes := m, position }] })
      visibility ms = c.unplaced.withMembers visibility (.property m x :: ms) := by
  simp [Container.withMembers, Container.unplaced, Property.unplaced, MemberOutline.properties,
    MemberOutline.methods, MemberOutline.bodyLine]

theorem withMembers_function {m : Attributes} {s : Signature} {position : Text.Position} :
    Container.withMembers (Container.unplaced { c with
      methods := c.methods ++ [{ signature := s, visibility, attributes := m, position }] })
      visibility ms = c.unplaced.withMembers visibility (.function m s :: ms) := by
  simp [Container.withMembers, Container.unplaced, Method.unplaced, MemberOutline.properties,
    MemberOutline.methods, MemberOutline.bodyLine]

theorem withMembers_generatedBody {line : Nat} :
    Container.withMembers (Container.unplaced { c with generatedBodyLine := some line })
      visibility ms = c.unplaced.withMembers visibility (.generatedBody :: ms) := by
  have hline : (MemberOutline.bodyLine ms).or (some 1) = some 1 := by
    unfold MemberOutline.bodyLine
    split <;> rfl
  have hmark : MemberOutline.bodyLine (.generatedBody :: ms) = some 1 := rfl
  simp [Container.withMembers, Container.unplaced, MemberOutline.properties,
    MemberOutline.methods, hline, hmark]

theorem withMembers_label {v : Visibility} : c.withMembers v ms =
    c.withMembers visibility (.label v :: ms) := by
  simp [Container.withMembers, MemberOutline.properties, MemberOutline.methods,
    MemberOutline.bodyLine]

theorem withMembers_container {inner : ContainerOutline} : c.withMembers visibility ms =
    c.withMembers visibility (.container inner :: ms) := by
  simp [Container.withMembers, MemberOutline.properties, MemberOutline.methods,
    MemberOutline.bodyLine]

end Runs

/-- The events of members leave a builder as it was, but for the innermost frame, which has them
now, and for the containers that they declare. -/
def MemberOutline.Runs (ms : List MemberOutline) : Prop :=
  ∀ (b : Builder) (frame : Frame) (outer : List Frame) (es : List Event),
    b.frames = frame :: outer → frame.depth = b.depth → es.map Event.sign = listSigns ms →
    (b.names ++ (listDeclared b.fileId b.scope ms).map Container.qualifiedName).Nodup →
    ∃ cs ws c visibility, b.takeAll (es.map .ok) =
        { b.withContainers cs ws with
          frames := { frame with container := c, visibility } :: outer } ∧
      cs.map Container.unplaced = listDeclared b.fileId b.scope ms ∧
      c.unplaced = frame.container.unplaced.withMembers frame.visibility ms

/-- The events of a container leave a builder as it was, but for the containers that it declares. -/
def ContainerOutline.Runs (o : ContainerOutline) : Prop :=
  ∀ (b : Builder) (es : List Event), es.map Event.sign = o.signs →
    (b.names ++ (o.declared b.fileId b.scope).map Container.qualifiedName).Nodup →
    ∃ cs ws, b.takeAll (es.map .ok) = b.withContainers cs ws ∧
      cs.map Container.unplaced = o.declared b.fileId b.scope

theorem notMem_of_nodup_append {α : Type} {xs ys : List α} {y : α} (h : (xs ++ y :: ys).Nodup) :
    y ∉ xs :=
  fun hmem => (List.nodup_append.1 h).2.2 y hmem y List.mem_cons_self rfl

theorem ContainerOutline.Runs.enum {m : Attributes} {header : EnumHeader} {es : List Enumerator}
    (h : ContainerOutline.Canonical (.enum m header es)) :
    ContainerOutline.Runs (.enum m header es) := by
  obtain ⟨hm, hheader, hes⟩ := h
  intro b events hevents hnames
  obtain ⟨e, rest, rfl, he, hrest⟩ := List.map_eq_cons_iff.1 hevents
  obtain rfl := List.map_eq_nil_iff.1 hrest
  have hnew : "::".intercalate (b.scope ++ [header.name]) ∉ b.names :=
    notMem_of_nodup_append hnames
  obtain ⟨c, hprocess, hc⟩ := Builder.process_enum he hm hheader hes hnew
  refine ⟨[c], [], ?_, hc⟩
  rw [Builder.takeAll_cons, hprocess]
  rfl

theorem ContainerOutline.Runs.record {m : Attributes} {header : RecordHeader}
    {members : List MemberOutline} (hm : m.Canonical) (hheader : header.Canonical)
    (hmembers : MemberOutline.Runs members) :
    ContainerOutline.Runs (.record m header members) := by
  intro b events hevents hnames
  obtain ⟨e, rest, rfl, he, hrest⟩ := List.map_eq_cons_iff.1 hevents
  obtain ⟨inner, last, rfl, hinner, hlast⟩ := List.map_eq_append_iff.1 hrest
  obtain ⟨close, nothing, rfl, hclose, hnothing⟩ := List.map_eq_cons_iff.1 hlast
  obtain rfl := List.map_eq_nil_iff.1 hnothing
  have hnew : "::".intercalate (b.scope ++ [header.name]) ∉ b.names :=
    notMem_of_nodup_append hnames
  obtain ⟨position, hopen⟩ := Builder.process_record he hm hheader hnew
  have hnames' : ((b.opened m header position).names ++
      (MemberOutline.listDeclared b.fileId (b.opened m header position).scope members).map
        Container.qualifiedName).Nodup := by
    rw [Builder.scope_opened, Builder.opened, List.append_assoc]
    exact hnames
  obtain ⟨cs, ws, c, visibility, hrun, hcs, hc⟩ := hmembers (b.opened m header position)
    (b.frameOf m header position) b.frames inner rfl rfl hinner hnames'
  obtain ⟨vs, hend⟩ := Builder.process_close
    (b := { (b.opened m header position).withContainers cs ws with
      frames := { b.frameOf m header position with container := c, visibility } :: b.frames })
    rfl rfl rfl hclose
  refine ⟨c :: cs, ws ++ vs, ?_, ?_⟩
  · rw [Builder.takeAll_cons, hopen, Builder.takeAll_map_append, hrun, Builder.takeAll_cons, hend]
    have hslots : (b.slots ++ none :: cs.map some).set b.slots.length (some c) =
        b.slots ++ some c :: cs.map some := by
      simp [List.set_append_right]
    have hname : c.qualifiedName = "::".intercalate (b.scope ++ [header.name]) := by
      rw [← Container.qualifiedName_unplaced, hc]
      rfl
    simp only [Builder.takeAll, List.map_nil, List.foldl_nil, Builder.withContainers,
      Builder.opened, Builder.frameOf, List.map_cons, hname, hslots, List.append_assoc,
      List.singleton_append, Nat.add_sub_cancel]
  · rw [List.map_cons, hcs, hc, Builder.scope_opened, ContainerOutline.declared]
    simp only [Builder.opened, Builder.frameOf, Container.withMembers, Container.unplaced,
      List.map_nil, Option.map_none, Option.or_none, List.nil_append]

theorem MemberOutline.Runs.nil : MemberOutline.Runs [] := by
  intro b frame outer es hframes _ hes _
  obtain rfl := List.map_eq_nil_iff.1 hes
  refine ⟨[], [], frame.container, frame.visibility, ?_, rfl, ?_⟩
  · rw [Builder.withContainers_nil, ← hframes]
    rfl
  · simp [Container.withMembers, MemberOutline.properties, MemberOutline.methods,
      MemberOutline.bodyLine]

/-- A member that is no container changes the innermost frame alone, which then has the member. -/
theorem MemberOutline.Runs.cons {m : MemberOutline} {ms : List MemberOutline} {sign : Sign}
    (hsigns : m.signs = [sign]) (hdeclared : ∀ fileId scope, m.declared fileId scope = [])
    (hstep : ∀ (b : Builder) (frame : Frame) (outer : List Frame) (e : Event),
      b.frames = frame :: outer → frame.depth = b.depth → e.sign = sign →
      ∃ c visibility, b.process e =
          { b with frames := { frame with container := c, visibility } :: outer } ∧
        c.name = frame.container.name ∧ c.unplaced.withMembers visibility ms =
          frame.container.unplaced.withMembers frame.visibility (m :: ms))
    (hms : MemberOutline.Runs ms) : MemberOutline.Runs (m :: ms) := by
  intro b frame outer events hframes hdepth hevents hnames
  rw [MemberOutline.listSigns, hsigns, List.singleton_append] at hevents
  obtain ⟨e, rest, rfl, he, hrest⟩ := List.map_eq_cons_iff.1 hevents
  obtain ⟨c₁, v₁, hprocess, hname, hmembers⟩ := hstep b frame outer e hframes hdepth he
  have hscope : Builder.scope
      { b with frames := { frame with container := c₁, visibility := v₁ } :: outer } = b.scope :=
    Builder.scope_of_name hframes hname
  rw [MemberOutline.listDeclared, hdeclared, List.nil_append] at hnames ⊢
  obtain ⟨cs, ws, c, visibility, hrun, hcs, hc⟩ := hms
    { b with frames := { frame with container := c₁, visibility := v₁ } :: outer } _ outer rest rfl
    hdepth hrest (by rw [hscope]; exact hnames)
  rw [hscope] at hcs
  refine ⟨cs, ws, c, visibility, ?_, hcs, hc.trans hmembers⟩
  rw [Builder.takeAll_cons, hprocess, hrun]
  rfl

/-- A container among members changes no frame. -/
theorem MemberOutline.Runs.container {inner : ContainerOutline} {ms : List MemberOutline}
    (hinner : inner.Runs) (hms : MemberOutline.Runs ms) :
    MemberOutline.Runs (.container inner :: ms) := by
  intro b frame outer events hframes hdepth hevents hnames
  obtain ⟨es, fs, rfl, hes, hfs⟩ := List.map_eq_append_iff.1 hevents
  rw [MemberOutline.listDeclared, MemberOutline.declared, List.map_append,
    ← List.append_assoc] at hnames
  obtain ⟨cs, ws, hrun, hcs⟩ := hinner b es hes (List.nodup_append.1 hnames).1
  rw [← hcs, map_qualifiedName_unplaced] at hnames
  obtain ⟨ds, vs, c, visibility, hrun', hds, hc⟩ :=
    hms (b.withContainers cs ws) frame outer fs hframes hdepth hfs hnames
  refine ⟨cs ++ ds, ws ++ vs, c, visibility, ?_, ?_, hc.trans withMembers_container⟩
  · rw [Builder.takeAll_map_append, hrun, hrun', Builder.withContainers_withContainers]
  · rw [List.map_append, hcs, hds]
    rfl

mutual

theorem ContainerOutline.run : ∀ o : ContainerOutline, o.Canonical → o.Runs
  | .record _ _ members, ⟨hm, hheader, hmembers⟩ =>
    .record hm hheader (MemberOutline.run members hmembers)
  | .enum _ _ _, h => .enum h

theorem MemberOutline.run : ∀ ms : List MemberOutline, MemberOutline.ListCanonical ms →
    MemberOutline.Runs ms
  | [], _ => .nil
  | m :: ms, ⟨hm, hms⟩ => by
    have hrest := MemberOutline.run ms hms
    match m, hm with
    | .label v, _ =>
      refine .cons rfl (fun _ _ => rfl) (fun b frame outer e hframes hdepth he => ?_) hrest
      exact ⟨_, v, Builder.process_label hframes hdepth he, rfl, withMembers_label⟩
    | .generatedBody, _ =>
      refine .cons rfl (fun _ _ => rfl) (fun b frame outer e hframes _ he => ?_) hrest
      obtain ⟨line, hprocess⟩ := Builder.process_generatedBody hframes he
      exact ⟨_, _, hprocess, rfl, withMembers_generatedBody⟩
    | .property a x, ⟨ha, hx⟩ =>
      refine .cons rfl (fun _ _ => rfl) (fun b frame outer e hframes _ he => ?_) hrest
      obtain ⟨position, hprocess⟩ := Builder.process_property hframes he ha hx
      exact ⟨_, _, hprocess, rfl, withMembers_property⟩
    | .function a s, ⟨ha, hs⟩ =>
      refine .cons rfl (fun _ _ => rfl) (fun b frame outer e hframes _ he => ?_) hrest
      obtain ⟨position, hprocess⟩ := Builder.process_function hframes he ha hs
      exact ⟨_, _, hprocess, rfl, withMembers_function⟩
    | .container inner, hinner => exact .container (ContainerOutline.run inner hinner) hrest

end

/-! ## Namespaces -/

theorem splitScopes_word {cs : List Char} (h : ∀ c ∈ cs, c ≠ ':') (part rest : List Char) :
    splitScopes part (cs ++ ':' :: ':' :: rest) = (part.reverse ++ cs) :: splitScopes [] rest := by
  induction cs generalizing part with
  | nil => simp [splitScopes]
  | cons c cs ih =>
    have hc : c ≠ ':' := h c List.mem_cons_self
    rw [List.cons_append, splitScopes.eq_3 _ _ _ (fun _ hd _ => hc hd),
      ih (fun d hd => h d (List.mem_cons_of_mem _ hd))]
    simp

theorem splitScopes_last {cs : List Char} (h : ∀ c ∈ cs, c ≠ ':') (part : List Char) :
    splitScopes part cs = [part.reverse ++ cs] := by
  induction cs generalizing part with
  | nil => simp [splitScopes]
  | cons c cs ih =>
    have hc : c ≠ ':' := h c List.mem_cons_self
    rw [splitScopes.eq_3 _ _ _ (fun _ hd _ => hc hd),
      ih (fun d hd => h d (List.mem_cons_of_mem _ hd))]
    simp

theorem ne_colon_of_isIdentifier {s : String} (h : IsIdentifier s) : ∀ c ∈ s.toList, c ≠ ':' := by
  rintro c hc rfl
  exact absurd (Token.isWordChar_of_mem h hc) (by decide)

theorem splitScopes_path {path : List String} (hne : path ≠ [])
    (h : ∀ s ∈ path, IsIdentifier s) :
    splitScopes [] ("::".intercalate path).toList = path.map String.toList := by
  induction path with
  | nil => exact absurd rfl hne
  | cons s path ih =>
    have hs := ne_colon_of_isIdentifier (h s List.mem_cons_self)
    cases path with
    | nil =>
      rw [String.intercalate_singleton, splitScopes_last hs]
      rfl
    | cons t path =>
      have hrest := ih (by simp) fun u hu => h u (List.mem_cons_of_mem _ hu)
      have htext : ("::".intercalate (s :: t :: path)).toList =
          s.toList ++ ':' :: ':' :: ("::".intercalate (t :: path)).toList := by
        rw [String.intercalate_cons_cons, String.append_assoc, String.toList_append,
          String.toList_append]
        rfl
      rw [htext, splitScopes_word hs, hrest]
      rfl

/-- A namespace opens the names of its path. -/
theorem namespaceNames_path {path : List String} (hne : path ≠ [])
    (h : ∀ s ∈ path, IsIdentifier s) : namespaceNames ("::".intercalate path) = path := by
  have htrim : ∀ s ∈ path, String.ofList (Text.trimBlanks s.toList) = s := by
    intro s hs
    have hblank : ∀ c ∈ s.toList, Text.isBlank c = false := fun c hc =>
      Text.isBlank_eq_false_of_isWordChar (Token.isWordChar_of_mem (h s hs) hc)
    rw [Text.trimBlanks_eq_self (fun c hc => hblank c (List.mem_of_mem_head? hc))
      (fun c hc => hblank c (List.mem_of_mem_getLast? hc)), String.ofList_toList]
  have hmap : path.map (fun s => String.ofList (Text.trimBlanks s.toList)) = path :=
    (List.map_congr_left htrim).trans (List.map_id' path)
  rw [namespaceNames, splitScopes_path hne h, List.map_map]
  refine Eq.trans (congrArg _ hmap) (List.filter_eq_self.2 fun s hs => ?_)
  simpa using ne_empty_of_isIdentifier (h s hs)

namespace Builder

variable {b : Builder} {e : Event}

/-- A namespace is opened. -/
theorem process_openNamespace {path : List String} (he : e.sign = .openNamespace ("::".intercalate path))
    (hne : path ≠ []) (hpath : ∀ s ∈ path, IsIdentifier s) :
    b.process e =
      { b with depth := b.depth + 1, namespaces := ⟨b.depth + 1, path⟩ :: b.namespaces } := by
  obtain ⟨place, name, rfl, hname⟩ := exists_of_sign_openNamespace he
  simp only [process, hname, namespaceNames_path hne hpath]

/-- Outside of containers the end of a namespace closes it. -/
theorem process_closeNamespace {ns : OpenNamespace} {outer : List OpenNamespace}
    (hframes : b.frames = []) (hns : b.namespaces = ns :: outer) (hdepth : ns.depth = b.depth)
    (he : e.sign = .closeBrace) :
    b.process e = { b with depth := b.depth - 1, namespaces := outer } := by
  obtain ⟨place, rfl⟩ := exists_of_sign_closeBrace he
  simp only [process, closeScope, closeNamespace, hframes, hns, hdepth, if_true]

end Builder

/-! ## Files -/

/-- The events of outlines leave a builder as it was, but for the containers that they declare. -/
def Outline.Runs (os : List Outline) : Prop :=
  ∀ (b : Builder) (es : List Event), b.frames = [] → es.map Event.sign = listSigns os →
    (b.names ++ (listDeclared b.fileId b.scope os).map Container.qualifiedName).Nodup →
    ∃ cs ws, b.takeAll (es.map .ok) = b.withContainers cs ws ∧
      cs.map Container.unplaced = listDeclared b.fileId b.scope os

theorem Outline.Runs.nil : Outline.Runs [] := by
  intro b es _ hes _
  obtain rfl := List.map_eq_nil_iff.1 hes
  exact ⟨[], [], b.withContainers_nil.symm, rfl⟩

theorem Outline.Runs.append {o : Outline} {os : List Outline}
    (ho : ∀ (b : Builder) (es : List Event), b.frames = [] → es.map Event.sign = o.signs →
      (b.names ++ (o.declared b.fileId b.scope).map Container.qualifiedName).Nodup →
      ∃ cs ws, b.takeAll (es.map .ok) = b.withContainers cs ws ∧
        cs.map Container.unplaced = o.declared b.fileId b.scope)
    (hos : Outline.Runs os) : Outline.Runs (o :: os) := by
  intro b events hframes hevents hnames
  obtain ⟨es, fs, rfl, hes, hfs⟩ := List.map_eq_append_iff.1 hevents
  rw [Outline.listDeclared, List.map_append, ← List.append_assoc] at hnames
  obtain ⟨cs, ws, hrun, hcs⟩ := ho b es hframes hes (List.nodup_append.1 hnames).1
  rw [← hcs, map_qualifiedName_unplaced] at hnames
  obtain ⟨ds, vs, hrun', hds⟩ := hos (b.withContainers cs ws) fs hframes hfs hnames
  refine ⟨cs ++ ds, ws ++ vs, ?_, ?_⟩
  · rw [Builder.takeAll_map_append, hrun, hrun', Builder.withContainers_withContainers]
  · rw [List.map_append, hcs, hds]
    rfl

/-- What stands in a namespace is declared behind its path. -/
theorem Outline.Runs.scope {path : List String} {inner : List Outline} (hne : path ≠ [])
    (hpath : ∀ s ∈ path, IsIdentifier s) (hinner : Outline.Runs inner) (b : Builder)
    (events : List Event) (hframes : b.frames = [])
    (hevents : events.map Event.sign = Outline.signs (.scope path inner))
    (hnames : (b.names ++ (Outline.declared b.fileId b.scope (.scope path inner)).map
      Container.qualifiedName).Nodup) :
    ∃ cs ws, b.takeAll (events.map .ok) = b.withContainers cs ws ∧
      cs.map Container.unplaced = Outline.declared b.fileId b.scope (.scope path inner) := by
  obtain ⟨e, rest, rfl, he, hrest⟩ := List.map_eq_cons_iff.1 hevents
  obtain ⟨es, last, rfl, hes, hlast⟩ := List.map_eq_append_iff.1 hrest
  obtain ⟨close, nothing, rfl, hclose, hnothing⟩ := List.map_eq_cons_iff.1 hlast
  obtain rfl := List.map_eq_nil_iff.1 hnothing
  have hscope : Builder.scope
      { b with depth := b.depth + 1, namespaces := ⟨b.depth + 1, path⟩ :: b.namespaces } =
        b.scope ++ path := by
    simp [Builder.scope, hframes]
  obtain ⟨cs, ws, hrun, hcs⟩ := hinner
    { b with depth := b.depth + 1, namespaces := ⟨b.depth + 1, path⟩ :: b.namespaces }
    es hframes hes (by rw [hscope]; exact hnames)
  have hclosed := Builder.process_closeNamespace (e := close)
    (b := Builder.withContainers
      { b with depth := b.depth + 1, namespaces := ⟨b.depth + 1, path⟩ :: b.namespaces } cs ws)
    hframes rfl rfl hclose
  refine ⟨cs, ws, ?_, by rw [hcs, hscope]; rfl⟩
  rw [Builder.takeAll_cons, Builder.process_openNamespace he hne hpath, Builder.takeAll_map_append,
    hrun, Builder.takeAll_cons, hclosed]
  rfl

mutual

theorem Outline.run : ∀ o : Outline, o.Canonical → ∀ (b : Builder) (es : List Event),
    b.frames = [] → es.map Event.sign = o.signs →
    (b.names ++ (o.declared b.fileId b.scope).map Container.qualifiedName).Nodup →
    ∃ cs ws, b.takeAll (es.map .ok) = b.withContainers cs ws ∧
      cs.map Container.unplaced = o.declared b.fileId b.scope
  | .scope _ inner, ⟨hne, hpath, hinner⟩ => Outline.Runs.scope hne hpath (Outline.runs inner hinner)
  | .container inner, h => fun b es _ hes hnames => inner.run h b es hes hnames

theorem Outline.runs : ∀ os : List Outline, Outline.ListCanonical os → Outline.Runs os
  | [], _ => .nil
  | o :: os, ⟨ho, hos⟩ => .append (Outline.run o ho) (Outline.runs os hos)

end

/-- **What is declared is what is reflected.** The text of canonical outlines whose containers have
names of their own is read without faults, as exactly the containers that they declare. -/
theorem FileModel.ofSource_listText {os : List Outline} (h : Outline.ListCanonical os)
    (path fileId : String)
    (hnames : ((Outline.listDeclared fileId [] os).map Container.qualifiedName).Nodup) :
    (FileModel.ofSource {} path fileId (Outline.listText os)).faults = [] ∧
      (FileModel.ofSource {} path fileId (Outline.listText os)).containers.map
        Container.unplaced = Outline.listDeclared fileId [] os := by
  obtain ⟨es, hscan, hsigns⟩ := scan_listText h
  obtain ⟨cs, ws, hrun, hcs⟩ := Outline.runs os h { path, fileId } es rfl hsigns hnames
  unfold FileModel.ofSource FileModel.ofEvents
  rw [hscan, hrun]
  refine ⟨rfl, Eq.trans ?_ hcs⟩
  simp [Builder.finish, Builder.withContainers]

/-! ## A file with a namespace -/

/-- A class in a namespace, with a base, a property, a function and an enum inside. -/
def sampleOutlines : List Outline :=
  [.scope ["game", "world"]
    [.container (.record [("Category", .text "x, y")]
      ⟨.class, "Pawn", [⟨.public, .named "Base"⟩], by decide⟩
      [.generatedBody, .label .public,
        .property [("Hidden", .flag true)] ⟨{ name := "float", isPointer := true }, "speed"⟩,
        .container (.enum [] ⟨true, "Mode", some (.named "int")⟩ [⟨"Off", none⟩, ⟨"On", none⟩]),
        .function [] ⟨"move", .named "void", [⟨.named "int", "steps"⟩], true, false⟩])]]

theorem canonical_sampleOutlines : Outline.ListCanonical sampleOutlines := by
  have hkey : IsKey "Category" ∧ IsKey "Hidden" := by unfold IsKey; decide
  have hmark : IsUnmarked "Category" ∧ IsUnmarked "Hidden" := by unfold IsUnmarked; decide +kernel
  have hcategory : Attributes.Canonical [("Category", .text "x, y")] :=
    ⟨⟨by simp [hkey.1], by simp [Attributes.keys], by simp [AttributeValue.Readable.text]⟩, rfl,
      by simp [hmark.1], by simpa using .text (by decide)⟩
  have hhidden : Attributes.Canonical [("Hidden", .flag true)] :=
    ⟨⟨by simp [hkey.2], by simp [Attributes.keys], by simp [AttributeValue.Readable.flag]⟩, rfl,
      by simp [hmark.2], by simp [AttributeValue.Inline.flag]⟩
  have hnone : Attributes.Canonical [] := ⟨.nil, rfl, by simp, by simp⟩
  have hspeed : TypeRef.Canonical [] false { name := "float", isPointer := true } := by
    have hfloat : (TypeRef.named "float").Canonical [] false := TypeRef.canonical_named (by decide)
    cases hfloat with
    | intro name arguments => exact .intro name (by simp)
  refine ⟨⟨by decide, by decide, ⟨hcategory, ⟨by decide, by decide, ?_⟩, trivial, trivial,
    ⟨hhidden, ⟨hspeed, by decide⟩⟩, ⟨hnone, ⟨by decide, by decide, ?_⟩, ?_⟩,
    ⟨hnone, ⟨TypeRef.canonical_named (by decide), by decide, ?_⟩⟩, trivial⟩, trivial⟩, trivial⟩
  · simpa using TypeRef.canonical_named (by decide)
  · simpa using TypeRef.canonical_named (by decide)
  · simp only [List.mem_cons, List.not_mem_nil, or_false]
    rintro e (rfl | rfl) <;> exact ⟨by decide, by simp⟩
  · simpa using ⟨TypeRef.canonical_named (by decide), by decide⟩

theorem ofSource_sampleOutlines :
    (Outline.ListCanonical sampleOutlines ∧
      ((Outline.listDeclared "a.h" [] sampleOutlines).map Container.qualifiedName).Nodup) ∧
    (FileModel.ofSource {} "a.h" "a.h" (Outline.listText sampleOutlines)).faults = [] ∧
      (FileModel.ofSource {} "a.h" "a.h" (Outline.listText sampleOutlines)).containers.map
        Container.unplaced = Outline.listDeclared "a.h" [] sampleOutlines :=
  ⟨⟨canonical_sampleOutlines, by decide +kernel⟩,
    FileModel.ofSource_listText canonical_sampleOutlines "a.h" "a.h" (by decide +kernel)⟩

/-- Two structs of one name, with all parts canonical. -/
def namesakes : List Outline :=
  [.container (.record [] ⟨.struct, "A", [], by decide⟩ [.generatedBody]),
    .container (.record [] ⟨.struct, "A", [], by decide⟩ [.generatedBody])]

theorem canonical_namesakes : Outline.ListCanonical namesakes := by
  have hnone : Attributes.Canonical [] := ⟨.nil, rfl, by simp, by simp⟩
  have hheader : RecordHeader.Canonical ⟨.struct, "A", [], by decide⟩ :=
    ⟨by decide, by decide, by simp⟩
  exact ⟨⟨hnone, hheader, trivial, trivial⟩, ⟨hnone, hheader, trivial, trivial⟩, trivial⟩

/-- A struct whose attributes hold a list of a flag's word alone. -/
def loneFlag : List Outline :=
  [.container (.record [("A", .nested [("true", .flag true)])] ⟨.struct, "S", [], by decide⟩
    [.generatedBody])]

/-- The container's attribute `A` is a flag that is set. -/
def Container.hasFlag (c : Container) : Bool :=
  c.attributes.get? "A" matches some (.flag true)

/-- The second of two containers of one name is a fault, and a list of a flag's word alone is
reflected as the flag. -/
theorem faults_namesakes :
    (FileModel.ofSource {} "a.h" "a.h" (Outline.listText namesakes)).faults =
        [.duplicateContainer "a.h" ⟨5, 10⟩ "A"] ∧
      (FileModel.ofSource {} "a.h" "a.h" (Outline.listText loneFlag)).containers.map
        Container.hasFlag = [true] ∧
      (¬∀ os : List Outline, Outline.ListCanonical os → ∀ path fileId,
        (FileModel.ofSource {} path fileId (Outline.listText os)).faults = []) ∧
      ¬∀ os : List Outline, ∀ path fileId,
        ((Outline.listDeclared fileId [] os).map Container.qualifiedName).Nodup →
        (FileModel.ofSource {} path fileId (Outline.listText os)).containers.map
          Container.unplaced = Outline.listDeclared fileId [] os := by
  have hfaults : (FileModel.ofSource {} "a.h" "a.h" (Outline.listText namesakes)).faults =
      [.duplicateContainer "a.h" ⟨5, 10⟩ "A"] := by
    decide +kernel
  have hflag : (FileModel.ofSource {} "a.h" "a.h" (Outline.listText loneFlag)).containers.map
      Container.hasFlag = [true] := by
    decide +kernel
  refine ⟨hfaults, hflag, fun h => ?_, fun h => ?_⟩
  · have hnone := h namesakes canonical_namesakes "a.h" "a.h"
    rw [hfaults] at hnone
    cases hnone
  · have hlist := congrArg (List.map Container.hasFlag) (h loneFlag "a.h" "a.h" (by decide +kernel))
    rw [List.map_map, show Container.hasFlag ∘ Container.unplaced = Container.hasFlag from rfl,
      hflag] at hlist
    exact absurd hlist (by decide +kernel)

end HeaderReflection
