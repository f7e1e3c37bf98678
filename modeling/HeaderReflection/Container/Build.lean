import HeaderReflection.Markup.Scan
import HeaderReflection.Attribute.Parse
import HeaderReflection.Container.Basic

/-!
# Building containers from events

The events of a file are put together into its containers. Scopes follow the braces: a container
or a namespace is open until the brace that closes its body. A fault inside a container drops that
container alone.

* `Builder.takeAll_append`: events can be taken in two goes.
-/

namespace HeaderReflection

open Text (Position)

/-- What a source file yields. -/
structure FileModel where
  path : String
  fileId : String
  /-- In the order they are opened. -/
  containers : List Container
  /-- The faults that cost a container, or that concern none. -/
  faults : List Fault
  warnings : List String

/-- A container whose body is open. -/
structure Frame where
  /-- Its place among the file's containers. -/
  slot : Nat
  container : Container
  /-- The brace depth of its body. -/
  depth : Nat
  /-- The access of the members that follow. -/
  visibility : Visibility
  /-- The first fault in it. -/
  fault : Option Fault

/-- The frame with a fault, unless it has one. -/
def Frame.blame (f : Frame) (fault : Fault) : Frame :=
  { f with fault := f.fault.or (some fault) }

/-- A namespace whose body is open. -/
structure OpenNamespace where
  depth : Nat
  /-- One name for each level it opens; none if it is anonymous. -/
  names : List String
  deriving DecidableEq, Repr

/-- What has been built of a file. -/
structure Builder where
  path : String
  fileId : String
  depth : Nat := 0
  /-- Innermost first. -/
  namespaces : List OpenNamespace := []
  /-- Innermost first. -/
  frames : List Frame := []
  /-- One slot for each container event, in order, filled when the container is complete. -/
  slots : List (Option Container) := []
  /-- The qualified names that are taken. -/
  names : List String := []
  faults : List Fault := []
  warnings : List String := []

/-- The parts of a text between scope marks, the current part given reversed. -/
def splitScopes (part : List Char) : List Char → List (List Char)
  | [] => [part.reverse]
  | ':' :: ':' :: rest => part.reverse :: splitScopes [] rest
  | c :: rest => splitScopes (c :: part) rest

/-- The names that a namespace opens. -/
def namespaceNames (name : String) : List String :=
  let parts := (splitScopes [] name.toList).map fun part => String.ofList (Text.trimBlanks part)
  parts.filter (· ≠ "")

/-- The declaration is that of an enum. -/
def isEnumDeclaration (declaration : String) : Bool :=
  (Declaration.tokens declaration).head? = some "enum"

/-- The attributes of an excerpt, or the fault that is reported for them. -/
def parseAttributes (path : String) (e : Excerpt) : Except Fault Attributes :=
  (Attributes.parse e.text e.position).mapError (·.inFile path)

namespace Builder

/-- The builder with a warning about a place in the file. -/
def warn (b : Builder) (position : Position) (text : String) : Builder :=
  { b with warnings := b.warnings ++ [b.path ++ ":" ++ position.text ++ ": " ++ text] }

/-- The builder with a fault that concerns no container. -/
def report (b : Builder) (fault : Fault) : Builder :=
  { b with faults := b.faults ++ [fault] }

/-- The builder with a fault in the innermost open container, or in none. -/
def fail (b : Builder) (fault : Fault) : Builder :=
  match b.frames with
  | [] => b.report fault
  | frame :: outer => { b with frames := frame.blame fault :: outer }

/-- The scope of what is opened next. -/
def scope (b : Builder) : List String :=
  b.namespaces.reverse.flatMap (·.names) ++ b.frames.reverse.map (·.container.name)

/-- A declaration's fault. -/
def malformed (b : Builder) (position : Position) (cause : DeclarationCause) : Fault :=
  .malformedDeclaration b.path position cause.message

/-- The container that an event opens, with the first of its faults. -/
def containerOf (b : Builder) (attributes declaration : Excerpt) : Container × Option Fault :=
  let blank : Container :=
    { name := "<anonymous>"
      kind := if isEnumDeclaration declaration.text then .enum else .class
      scope := b.scope, fileId := b.fileId, position := declaration.position }
  let parsed := parseAttributes b.path attributes
  match Header.parse declaration.text with
  | .error cause => (blank, some (b.malformed declaration.position cause))
  | .ok header =>
    let named : Container :=
      { blank with
        name := header.name, kind := header.kind, bases := header.bases
        underlying := header.underlying }
    match parsed with
    | .error fault => (named, some fault)
    | .ok attributes =>
      let complete : Container := { named with attributes }
      if b.names.contains complete.qualifiedName then
        (complete, some (.duplicateContainer b.path declaration.position header.name))
      else (complete, none)

/-- The builder after an enum, which is complete at once. -/
def addEnum (b : Builder) (c : Container) (fault : Option Fault) (body : Option String) : Builder :=
  match fault, body with
  | some fault, _ => { b.report fault with slots := b.slots ++ [none] }
  | none, none =>
    { b.report (.unterminatedContainer b.path c.position c.name) with slots := b.slots ++ [none] }
  | none, some body =>
    { b with slots := b.slots ++ [some { c with enumerators := Enumerator.parseAll body }] }

/-- The builder after the opening brace of a class or struct. -/
def openFrame (b : Builder) (c : Container) (fault : Option Fault) : Builder :=
  let frame : Frame :=
    { slot := b.slots.length, container := c, depth := b.depth + 1
      visibility := c.kind.defaultVisibility, fault }
  { b with depth := b.depth + 1, slots := b.slots ++ [none], frames := frame :: b.frames }

/-- The builder after a container event. Only a container without a fault takes its name. -/
def openContainer (b : Builder) (attributes declaration : Excerpt) (body : Option String) :
    Builder :=
  let (c, fault) := b.containerOf attributes declaration
  let b := if fault.isNone then { b with names := b.names ++ [c.qualifiedName] } else b
  if isEnumDeclaration declaration.text then b.addEnum c fault body else b.openFrame c fault

/-- The innermost frame with a property, or with the fault that drops it. -/
def addProperty (b : Builder) (position : Position) (attributes declaration : Excerpt) : Builder :=
  match b.frames with
  | [] => b.report (b.malformed position .looseProperty)
  | frame :: outer =>
    match parseAttributes b.path attributes, Variable.parse declaration.text with
    | .error fault, _ => { b with frames := frame.blame fault :: outer }
    | .ok _, .error cause =>
      { b with frames := frame.blame (b.malformed declaration.position cause) :: outer }
    | .ok attributes, .ok ⟨type, name⟩ =>
      if name = "" then
        let cause := DeclarationCause.unnamedProperty declaration.text
        { b with frames := frame.blame (b.malformed declaration.position cause) :: outer }
      else
        let property : Property :=
          { name, type, visibility := frame.visibility, attributes
            position := declaration.position }
        let c := frame.container
        let c := { c with properties := c.properties ++ [property] }
        { b with frames := { frame with container := c } :: outer }

/-- The innermost frame with a member function, or with the fault that drops it. -/
def addMethod (b : Builder) (position : Position) (attributes declaration : Excerpt) : Builder :=
  match b.frames with
  | [] => b.report (b.malformed position .looseFunction)
  | frame :: outer =>
    match parseAttributes b.path attributes, Signature.parse declaration.text with
    | .error fault, _ => { b with frames := frame.blame fault :: outer }
    | .ok _, .error cause =>
      { b with frames := frame.blame (b.malformed declaration.position cause) :: outer }
    | .ok attributes, .ok signature =>
      let method : Method :=
        { signature, visibility := frame.visibility, attributes
          position := declaration.position }
      let c := frame.container
      let c := { c with methods := c.methods ++ [method] }
      { b with frames := { frame with container := c } :: outer }

/-- The builder after a generated-body marker, which belongs to the innermost open container. -/
def markBody (b : Builder) (position : Position) : Builder :=
  match b.frames with
  | [] => b.warn position "generated-body marker outside of a reflected container"
  | frame :: outer =>
    let c := { frame.container with generatedBodyLine := some position.line }
    { b with frames := { frame with container := c } :: outer }

/-- The builder after an access label, which counts only directly in a container's body. -/
def setVisibility (b : Builder) (visibility : Visibility) : Builder :=
  match b.frames with
  | [] => b
  | frame :: outer =>
    if frame.depth = b.depth then { b with frames := { frame with visibility } :: outer } else b

/-- The builder after the end of a container's body. -/
def complete (b : Builder) (frame : Frame) : Builder :=
  match frame.fault with
  | some fault => b.report fault
  | none =>
    let c := frame.container
    let b := { b with slots := b.slots.set frame.slot (some c) }
    if c.generatedBodyLine.isNone then
      b.warn c.position (c.kind.word ++ " '" ++ c.name ++ "' has no generated-body marker")
    else b

/-- The builder after a brace that may end the innermost namespace: it does if the namespace's body
is as deep as the brace. -/
def closeNamespace (b : Builder) : Builder :=
  match b.namespaces with
  | ns :: outer => if ns.depth = b.depth then { b with namespaces := outer } else b
  | [] => b

/-- The builder after a closing brace, but for its depth. The brace ends the innermost
container, if the container's body is as deep as the brace, or else the innermost namespace, if
that one's is. -/
def closeScope (b : Builder) : Builder :=
  match b.frames with
  | frame :: outer =>
    if frame.depth = b.depth then { b with frames := outer }.complete frame
    else b.closeNamespace
  | [] => b.closeNamespace

/-- The builder after an event. -/
def process (b : Builder) : Event → Builder
  | .container _ attributes declaration body => b.openContainer attributes declaration body
  | .property position attributes declaration => b.addProperty position attributes declaration
  | .function position attributes declaration => b.addMethod position attributes declaration
  | .generatedBody position _ => b.markBody position
  | .label _ visibility => b.setVisibility visibility
  | .openNamespace _ name =>
    { b with
      depth := b.depth + 1
      namespaces := ⟨b.depth + 1, namespaceNames name.text⟩ :: b.namespaces }
  | .openBrace _ => { b with depth := b.depth + 1 }
  | .closeBrace _ =>
    let b := b.closeScope
    { b with depth := b.depth - 1 }

/-- The builder after an event or a fault in its place. -/
def take (b : Builder) : Except ScanFault Event → Builder
  | .ok event => b.process event
  | .error fault => b.fail (fault.inFile b.path)

/-- The faults of a container that is still open at the end of the file. -/
def unclosed (b : Builder) (frame : Frame) : List Fault :=
  frame.fault.toList
    ++ [.unterminatedContainer b.path frame.container.position frame.container.name]

/-- What the file yields at its end. -/
def finish (b : Builder) : FileModel :=
  { path := b.path
    fileId := b.fileId
    containers := b.slots.filterMap id
    faults := b.faults ++ b.frames.reverse.flatMap b.unclosed
    warnings := b.warnings }

/-- The builder after a sequence of events. -/
def takeAll (b : Builder) (events : List (Except ScanFault Event)) : Builder :=
  events.foldl take b

theorem takeAll_append (b : Builder) (es fs : List (Except ScanFault Event)) :
    b.takeAll (es ++ fs) = (b.takeAll es).takeAll fs :=
  List.foldl_append

end Builder

/-- What a sequence of events yields. -/
def FileModel.ofEvents (path fileId : String) (events : List (Except ScanFault Event)) :
    FileModel :=
  (Builder.takeAll { path, fileId } events).finish

/-- What a source text yields. The path is the one that faults and warnings name. -/
def FileModel.ofSource (v : Vocabulary) (path fileId source : String) : FileModel :=
  FileModel.ofEvents path fileId (Markup.scan v source)

end HeaderReflection
