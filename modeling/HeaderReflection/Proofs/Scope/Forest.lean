import HeaderReflection.Container.Build

/-!
# Well-nested events

The events of a file whose braces match are a forest: each namespace, pair of braces and container
has the events of its body in it. The containers that such a file declares can be read off the
forest, with no record of what is open.

* `Forest.events`: the events of a forest, in the order of the file.
* `Forest.declared`: the containers of a forest in opening order, each with its scope and with the
  items that are its own.
* `Declared.Survives`: what it takes for a container to be recorded.
* `Declared.outcomes`: what is recorded of each container. By `Declared.isSome_outcome` that is
  something just if the container survives, so a fault costs the innermost container around it and
  no other one.
-/

namespace HeaderReflection

open Text (Position)

/-- What belongs to the container around it, with a marker's fault as one of them. -/
inductive Item where
  | property (position : Position) (attributes declaration : Excerpt)
  | function (position : Position) (attributes declaration : Excerpt)
  | generatedBody (position : Position) (attributes : Excerpt)
  | label (position : Position) (visibility : Visibility)
  | fault (fault : ScanFault)

namespace Item

/-- The item in a sequence of events. -/
def event : Item → Except ScanFault Event
  | property position attributes declaration => .ok (.property position attributes declaration)
  | function position attributes declaration => .ok (.function position attributes declaration)
  | generatedBody position attributes => .ok (.generatedBody position attributes)
  | label position visibility => .ok (.label position visibility)
  | fault f => .error f

/-- The access that a label sets. -/
def label? : Item → Option Visibility
  | label _ visibility => some visibility
  | _ => none

/-- The line of a generated-body marker. -/
def bodyLine? : Item → Option Nat
  | generatedBody position _ => some position.line
  | _ => none

/-- The property that an item declares where an access holds. -/
def property? (visibility : Visibility) : Item → Option Property
  | property _ a d =>
    match Attributes.parse a.text a.position, Variable.parse d.text with
    | .ok attributes, .ok ⟨type, name⟩ =>
      if name = "" then none else some { name, type, visibility, attributes, position := d.position }
    | _, _ => none
  | _ => none

/-- The function that an item declares where an access holds. -/
def method? (visibility : Visibility) : Item → Option Method
  | function _ a d =>
    match Attributes.parse a.text a.position, Signature.parse d.text with
    | .ok attributes, .ok signature =>
      some { signature, visibility, attributes, position := d.position }
    | _, _ => none
  | _ => none

/-- The item is well formed. A property needs a name, and a fault never is. -/
def isSound : Item → Bool
  | property _ a d =>
    (Attributes.parse a.text a.position).isOk
      && (Variable.parse d.text).toOption.any fun v => v.name ≠ ""
  | function _ a d =>
    (Attributes.parse a.text a.position).isOk && (Signature.parse d.text).isOk
  | fault _ => false
  | _ => true

/-- The items, each with the access that holds there: that of the last label before it. -/
def accessed (visibility : Visibility) : List Item → List (Visibility × Item)
  | [] => []
  | i :: rest => (visibility, i) :: accessed (i.label?.getD visibility) rest

/-- The access behind some items. -/
def accessAfter (visibility : Visibility) (items : List Item) : Visibility :=
  (items.filterMap label?).getLast?.getD visibility

/-- The properties that items declare. -/
def properties (visibility : Visibility) (items : List Item) : List Property :=
  (accessed visibility items).filterMap fun (v, i) => i.property? v

/-- The functions that items declare. -/
def methods (visibility : Visibility) (items : List Item) : List Method :=
  (accessed visibility items).filterMap fun (v, i) => i.method? v

/-- The line of the last generated-body marker among items. -/
def bodyLine (items : List Item) : Option Nat :=
  (items.filterMap bodyLine?).getLast?

end Item

/-- A container event without its body. -/
structure Head where
  position : Position
  attributes : Excerpt
  declaration : Excerpt

namespace Head

/-- The container's name, or the one that stands for it if its header does not parse. -/
def name (h : Head) : String :=
  match Header.parse h.declaration.text with
  | .ok header => header.name
  | .error _ => "<anonymous>"

/-- The header and the attributes parse. -/
def parses (h : Head) : Bool :=
  (Header.parse h.declaration.text).isOk
    && (Attributes.parse h.attributes.text h.attributes.position).isOk

end Head

/-- A sequence of scopes and of what stands between them. -/
inductive Forest where
  | nil
  | item (i : Item) (rest : Forest)
  /-- An enum, whose event holds its body. -/
  | enum (head : Head) (isEnum : isEnumDeclaration head.declaration.text = true) (body : String)
    (rest : Forest)
  /-- A class or struct. The body of its event is not read. -/
  | container (head : Head) (isClass : isEnumDeclaration head.declaration.text = false)
    (body : Option String) (inner : Forest) (closing : Position) (rest : Forest)
  | namespace (position : Position) (name : Excerpt) (inner : Forest) (closing : Position)
    (rest : Forest)
  | braces (position : Position) (inner : Forest) (closing : Position) (rest : Forest)

/-- A container event of a forest: where it stands, and what belongs to it. -/
structure Declared where
  /-- The names of the enclosing namespaces, outermost first. -/
  namespaces : List String
  /-- The names of the enclosing containers, outermost first. -/
  containers : List String
  head : Head
  items : List Item := []
  enumerators : List Enumerator := []

namespace Forest

/-- The events of a forest. -/
def events : Forest → List (Except ScanFault Event)
  | nil => []
  | item i rest => i.event :: rest.events
  | enum h _ body rest =>
    .ok (.container h.position h.attributes h.declaration (some body)) :: rest.events
  | container h _ body inner closing rest =>
    .ok (.container h.position h.attributes h.declaration body)
      :: (inner.events ++ .ok (.closeBrace closing) :: rest.events)
  | .namespace position name inner closing rest =>
    .ok (.openNamespace position name)
      :: (inner.events ++ .ok (.closeBrace closing) :: rest.events)
  | braces position inner closing rest =>
    .ok (.openBrace position) :: (inner.events ++ .ok (.closeBrace closing) :: rest.events)

/-- The items whose innermost container is the one around the forest. Access labels are among them
only directly in its body. -/
def items (direct : Bool) : Forest → List Item
  | nil => []
  | item i rest =>
    if direct || i.label?.isNone then i :: rest.items direct else rest.items direct
  | enum _ _ _ rest => rest.items direct
  | container _ _ _ _ _ rest => rest.items direct
  | .namespace _ _ inner _ rest => inner.items false ++ rest.items direct
  | braces _ inner _ rest => inner.items false ++ rest.items direct

/-- The containers of a forest, in the order in which they are opened, given the names of the
namespaces and of the containers around it. -/
def declared (namespaces containers : List String) : Forest → List Declared
  | nil => []
  | item _ rest => rest.declared namespaces containers
  | enum head _ body rest =>
    { namespaces, containers, head, enumerators := Enumerator.parseAll body }
      :: rest.declared namespaces containers
  | container head _ _ inner _ rest =>
    { namespaces, containers, head, items := inner.items true }
      :: (inner.declared namespaces (containers ++ [head.name])
        ++ rest.declared namespaces containers)
  | .namespace _ name inner _ rest =>
    inner.declared (namespaces ++ namespaceNames name.text) containers
      ++ rest.declared namespaces containers
  | braces _ inner _ rest =>
    inner.declared namespaces containers ++ rest.declared namespaces containers

end Forest

namespace Declared

/-- The enclosing namespaces and containers, outermost first. -/
def scope (d : Declared) : List String :=
  d.namespaces ++ d.containers

/-- The name from global scope. -/
def qualifiedName (d : Declared) : String :=
  "::".intercalate (d.scope ++ [d.head.name])

/-- No earlier container whose header and attributes parse has the same name. -/
def Fresh (earlier : List Declared) (d : Declared) : Prop :=
  ∀ e ∈ earlier, e.head.parses = true → e.qualifiedName ≠ d.qualifiedName

/-- The container is recorded: its header and attributes parse, its name is fresh, and what belongs
to it is well formed. -/
def Survives (earlier : List Declared) (d : Declared) : Prop :=
  d.head.parses = true ∧ d.Fresh earlier ∧ ∀ i ∈ d.items, i.isSound = true

instance (earlier : List Declared) (d : Declared) : Decidable (d.Fresh earlier) :=
  inferInstanceAs (Decidable (∀ e ∈ earlier, e.head.parses = true → _))

instance (earlier : List Declared) (d : Declared) : Decidable (d.Survives earlier) :=
  inferInstanceAs (Decidable (_ ∧ _))

/-- The record of a container whose header and attributes parse. -/
def record (fileId : String) (d : Declared) : Option Container :=
  match Header.parse d.head.declaration.text,
    Attributes.parse d.head.attributes.text d.head.attributes.position with
  | .ok header, .ok attributes =>
    some
      { name := header.name
        kind := header.kind
        scope := d.scope
        fileId
        position := d.head.declaration.position
        bases := header.bases
        properties := Item.properties header.kind.defaultVisibility d.items
        methods := Item.methods header.kind.defaultVisibility d.items
        attributes
        generatedBodyLine := Item.bodyLine d.items
        enumerators := d.enumerators
        underlying := header.underlying }
  | _, _ => none

/-- What is recorded of a container. -/
def outcome (fileId : String) (earlier : List Declared) (d : Declared) : Option Container :=
  if d.Survives earlier then d.record fileId else none

/-- A container has a record just if it survives. -/
theorem isSome_outcome (fileId : String) (earlier : List Declared) (d : Declared) :
    (d.outcome fileId earlier).isSome ↔ d.Survives earlier := by
  unfold outcome record
  split
  · rename_i h
    have hp := h.1
    simp only [h, iff_true]
    unfold Head.parses at hp
    split
    · rfl
    · cases hh : Header.parse d.head.declaration.text <;>
        cases ha : Attributes.parse d.head.attributes.text d.head.attributes.position <;>
        simp_all [Except.isOk, Except.toBool]
  · rename_i h
    simp [h]

/-- What is recorded of each of some containers. -/
def outcomes (fileId : String) (earlier : List Declared) : List Declared → List (Option Container)
  | [] => []
  | d :: rest => d.outcome fileId earlier :: outcomes fileId (earlier ++ [d]) rest

theorem outcomes_append (fileId : String) (earlier ds es : List Declared) :
    outcomes fileId earlier (ds ++ es)
      = outcomes fileId earlier ds ++ outcomes fileId (earlier ++ ds) es := by
  induction ds generalizing earlier with
  | nil => simp [outcomes]
  | cons d ds ih => simp [outcomes, ih]

end Declared

end HeaderReflection
