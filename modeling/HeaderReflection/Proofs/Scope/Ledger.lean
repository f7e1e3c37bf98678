import Mathlib.Data.List.Perm.Basic
import HeaderReflection.Proofs.Scope.Bodies

/-!
# The ledger of a file

The ledger of a file has an account for each container event, with what belongs to the container,
and a list of what belongs to none. It follows the scopes of the file, nested or not, and keeps no
faults: what becomes of a container is told by its account at the end of the file.

* `Account.recorded`: the faults in a container, in the order in which they come up.
* `Account.faults`: those that the file is charged with for the container.
* `Account.faults_eq_nil_iff`: there are none just if the container is returned.
* `Ledger.take`: what an event adds to the ledger.
-/

namespace HeaderReflection

open Text (Position)

/-! ## Lists with one entry changed -/

section Lists

variable {α β : Type} {xs : List α} {k : Nat} {a : α}

theorem exists_split_modify (h : xs[k]? = some a) (u : α → α) :
    ∃ pre post, xs = pre ++ a :: post ∧ pre.length = k ∧ xs.modify k u = pre ++ u a :: post := by
  obtain ⟨hk, rfl⟩ := List.getElem?_eq_some_iff.1 h
  obtain ⟨pre, x, post, hxs, hlen, hmodify⟩ := List.exists_of_modify u hk
  obtain rfl : x = xs[k] := by simp [hxs, ← hlen]
  exact ⟨pre, post, hxs, hlen, hmodify⟩

theorem map_modify {p : α → β} {u : α → α} (h : ∀ a, xs[k]? = some a → p (u a) = p a) :
    (xs.modify k u).map p = xs.map p := by
  refine List.ext_getElem? fun j => ?_
  rw [List.getElem?_map, List.getElem?_map, List.getElem?_modify]
  cases ha : xs[j]? with
  | none => rfl
  | some a =>
    show some (p (if k = j then u a else a)) = some (p a)
    split
    · rename_i hkj
      rw [h a (hkj ▸ ha)]
    · rfl

theorem perm_insert {ys zs : List α} (h : xs.Perm (ys ++ zs)) (more : List α) :
    (xs ++ more).Perm (ys ++ (more ++ zs)) := by
  refine (h.append_right more).trans ?_
  rw [List.append_assoc]
  exact List.perm_append_comm.append_left ys

theorem filterMap_singleton (p : α → Option β) (a : α) : [a].filterMap p = (p a).toList := by
  rw [List.filterMap_cons]
  cases p a <;> rfl

end Lists

/-- A warning about a place in a file. -/
def warningAt (path : String) (position : Position) (text : String) : String :=
  path ++ ":" ++ position.text ++ ": " ++ text

/-- The warning about a class or struct that has no generated-body line. -/
def bareWarning? (path : String) (c : Container) : Option String :=
  if c.generatedBodyLine.isNone then
    some (warningAt path c.position
      (c.kind.word ++ " '" ++ c.name ++ "' has no generated-body marker"))
  else none

/-! ## Items -/

namespace Item

/-- The fault of an item in a container. -/
def fault? (path : String) : Item → Option Fault
  | property _ a d =>
    match parseAttributes path a, Variable.parse d.text with
    | .error f, _ => some f
    | .ok _, .error cause => some (.malformedDeclaration path d.position cause.message)
    | .ok _, .ok v =>
      if v.name = "" then
        let cause := DeclarationCause.unnamedProperty d.text
        some (.malformedDeclaration path d.position cause.message)
      else none
  | function _ a d =>
    match parseAttributes path a, Signature.parse d.text with
    | .error f, _ => some f
    | .ok _, .error cause => some (.malformedDeclaration path d.position cause.message)
    | .ok _, .ok _ => none
  | fault f => some (f.inFile path)
  | _ => none

/-- The fault of an item outside of all containers. -/
def looseFault? (path : String) : Item → Option Fault
  | property position _ _ =>
    some (.malformedDeclaration path position DeclarationCause.looseProperty.message)
  | function position _ _ =>
    some (.malformedDeclaration path position DeclarationCause.looseFunction.message)
  | fault f => some (f.inFile path)
  | _ => none

/-- The warning about an item outside of all containers. -/
def looseWarning? (path : String) : Item → Option String
  | generatedBody position _ =>
    some (warningAt path position "generated-body marker outside of a reflected container")
  | _ => none

/-- A property or a function. -/
def isMember : Item → Bool
  | property .. | function .. => true
  | _ => false

/-- A marker's fault. -/
def isFault : Item → Bool
  | fault _ => true
  | _ => false

/-- A generated-body marker. -/
def isMarker : Item → Bool
  | generatedBody .. => true
  | _ => false

theorem fault?_eq_none_iff {path : String} {i : Item} :
    i.fault? path = none ↔ i.isSound = true := by
  cases i with
  | property position a d =>
    simp only [fault?, isSound, Builder.parseAttributes_eq]
    cases Attributes.parse a.text a.position <;> cases Variable.parse d.text <;>
      simp [Except.isOk, Except.toBool, Except.toOption]
  | function position a d =>
    simp only [fault?, isSound, Builder.parseAttributes_eq]
    cases Attributes.parse a.text a.position <;> cases Signature.parse d.text <;>
      simp [Except.isOk, Except.toBool]
  | _ => simp [fault?, isSound]

/-- Loose members and loose faults have one fault each, and nothing else has. -/
theorem length_looseFaults (path : String) (items : List Item) :
    (items.filterMap (looseFault? path)).length = items.countP isMember + items.countP isFault := by
  induction items with
  | nil => rfl
  | cons i items ih =>
    rw [List.filterMap_cons, List.countP_cons, List.countP_cons]
    cases i <;> simp [looseFault?, isMember, isFault, ih] <;> omega

theorem length_looseWarnings (path : String) (items : List Item) :
    (items.filterMap (looseWarning? path)).length = items.countP isMarker := by
  induction items with
  | nil => rfl
  | cons i items ih =>
    rw [List.filterMap_cons, List.countP_cons]
    cases i <;> simp [looseWarning?, isMarker, ih]

end Item

/-! ## Accounts -/

theorem Declared.isSome_record (d : Declared) (fileId : String) :
    (d.record fileId).isSome = d.head.parses := by
  unfold record Head.parses
  cases Header.parse d.head.declaration.text <;>
    cases Attributes.parse d.head.attributes.text d.head.attributes.position <;> rfl

/-- The account of a container event. -/
structure Account where
  /-- Where the container stands, and what belongs to it so far. -/
  declared : Declared
  /-- The body of an enum, if it is closed. -/
  body : Option String
  /-- A container before it whose header and attributes parse has its qualified name. -/
  isNamesake : Bool
  /-- The body of the class or struct has not ended. -/
  isOpen : Bool

namespace Account

/-- The container is an enum, which its event captures whole. -/
def isCaptured (a : Account) : Bool :=
  isEnumDeclaration a.declared.head.declaration.text

/-- The fault of the container as it is opened. -/
def opening? (path : String) (a : Account) : Option Fault :=
  let position := a.declared.head.declaration.position
  match Header.parse a.declared.head.declaration.text,
    parseAttributes path a.declared.head.attributes with
  | .error cause, _ => some (.malformedDeclaration path position cause.message)
  | .ok _, .error fault => some fault
  | .ok header, .ok _ =>
    if a.isNamesake then some (.duplicateContainer path position header.name) else none

/-- Nothing in the container is malformed, and its name is not taken. -/
def isSound (a : Account) : Bool :=
  a.declared.head.parses && !a.isNamesake && a.declared.items.all Item.isSound

/-- The faults in the container, in the order in which they come up. -/
def recorded (path : String) (a : Account) : List Fault :=
  (a.opening? path).toList ++ a.declared.items.filterMap (Item.fault? path)

/-- The fault of a container that never ends. -/
def unterminated (path : String) (a : Account) : Fault :=
  .unterminatedContainer path a.declared.head.declaration.position a.declared.head.name

/-- The faults that a file is charged with for the container, if it ends as it is: the first one
that comes up, and one if the body of a class or struct has not ended. An enum without a body is
charged with that only if it has no other fault. -/
def faults (path : String) (a : Account) : List Fault :=
  if a.isCaptured then
    match (a.recorded path).head?, a.body with
    | some fault, _ => [fault]
    | none, none => [a.unterminated path]
    | none, some _ => []
  else (a.recorded path).head?.toList ++ if a.isOpen then [a.unterminated path] else []

/-- The container is returned, if the file ends as it is: it is sound and has ended. -/
def isReturned (a : Account) : Bool :=
  a.isSound && if a.isCaptured then a.body.isSome else !a.isOpen

/-- The container that is returned. -/
def container? (fileId : String) (a : Account) : Option Container :=
  if a.isReturned then a.declared.record fileId else none

/-- The warning about a class or struct that is returned without a generated-body marker. -/
def warning? (path fileId : String) (a : Account) : Option String :=
  if a.isCaptured then none else (a.container? fileId).bind (bareWarning? path)

/-- A fault has come up in the container. -/
def isPoisoned (path : String) (a : Account) : Bool :=
  !(a.recorded path).isEmpty

/-- The container is not returned, if the file ends as it is. -/
def isDropped (fileId : String) (a : Account) : Bool :=
  (a.container? fileId).isNone

/-- The container is a class or struct that is returned, and has no generated-body line. -/
def isBare (fileId : String) (a : Account) : Bool :=
  !a.isCaptured && (a.container? fileId).any (·.generatedBodyLine.isNone)

/-- The account with a further item. -/
def add (a : Account) (i : Item) : Account :=
  { a with declared := { a.declared with items := a.declared.items ++ [i] } }

/-- The account at the end of the container's body. -/
def close (a : Account) : Account :=
  { a with isOpen := false }

variable {a : Account} {path : String}

theorem opening?_eq_none_iff :
    a.opening? path = none ↔ a.declared.head.parses = true ∧ a.isNamesake = false := by
  unfold opening? Head.parses
  rw [Builder.parseAttributes_eq]
  cases Header.parse a.declared.head.declaration.text <;>
    cases Attributes.parse a.declared.head.attributes.text a.declared.head.attributes.position <;>
    simp [Except.isOk, Except.toBool]

theorem recorded_eq_nil_iff : a.recorded path = [] ↔ a.isSound = true := by
  simp only [recorded, isSound, List.append_eq_nil_iff, Option.toList_eq_nil_iff,
    opening?_eq_none_iff, List.filterMap_eq_nil_iff, Item.fault?_eq_none_iff, Bool.and_eq_true,
    Bool.not_eq_true', List.all_eq_true]

/-- An item is charged for only if it is the first one with a fault. -/
theorem head?_recorded_add (i : Item) :
    ((a.add i).recorded path).head? = (a.recorded path).head?.or (i.fault? path) := by
  have happ : (a.add i).recorded path = a.recorded path ++ (i.fault? path).toList := by
    have hopening : (a.add i).opening? path = a.opening? path := rfl
    unfold recorded
    rw [hopening, List.append_assoc]
    cases hi : i.fault? path <;> simp [add, hi]
  rw [happ, List.head?_append]
  cases i.fault? path <;> rfl

/-- A container is charged with nothing just if it is returned. -/
theorem faults_eq_nil_iff : a.faults path = [] ↔ a.isReturned = true := by
  have hsound : a.recorded path = [] ↔ a.isSound = true := recorded_eq_nil_iff
  unfold faults isReturned
  cases hrecorded : a.recorded path with
  | nil =>
    rw [hsound.1 hrecorded]
    cases a.isCaptured <;> cases a.isOpen <;> cases a.body <;> simp
  | cons fault more =>
    have hunsound : a.isSound = false := by
      rw [← Bool.not_eq_true, ← hsound, hrecorded]
      simp
    rw [hunsound]
    cases a.isCaptured <;> simp

/-- A container is charged with something just if it is dropped. -/
theorem isDropped_iff (path fileId : String) : a.isDropped fileId = true ↔ a.faults path ≠ [] := by
  unfold isDropped container?
  cases hreturned : a.isReturned with
  | false =>
    have hcharged : a.faults path ≠ [] := by simp [Ne, faults_eq_nil_iff, hreturned]
    simpa using hcharged
  | true =>
    have hfree : a.faults path = [] := faults_eq_nil_iff.2 hreturned
    simp only [isReturned, isSound, Bool.and_eq_true] at hreturned
    have hrecord := (a.declared.isSome_record fileId).trans hreturned.1.1.1
    rw [hfree, if_pos rfl, ← Option.not_isSome, hrecord]
    simp

/-- A container that is charged with nothing is sound. -/
theorem isSound_of_faults (h : a.faults path = []) : a.isSound = true := by
  have hreturned := faults_eq_nil_iff.1 h
  rw [isReturned, Bool.and_eq_true] at hreturned
  exact hreturned.1

/-- An enum is charged with one fault, if it is dropped. -/
theorem length_faults_captured (fileId : String) (h : a.isCaptured = true) :
    (a.faults path).length = if a.isDropped fileId then 1 else 0 := by
  have hle : (a.faults path).length ≤ 1 := by
    rw [faults, if_pos h]
    split <;> simp
  split
  · rename_i hdropped
    have hpos := List.length_pos_iff.2 ((isDropped_iff path fileId).1 hdropped)
    omega
  · rename_i hreturned
    rw [isDropped_iff path, Decidable.not_not] at hreturned
    rw [hreturned]
    rfl

/-- A class or struct is charged with one fault if there is one in it, and with one if its body has
not ended. -/
theorem length_faults_scoped (h : a.isCaptured = false) :
    (a.faults path).length =
      (if a.isPoisoned path then 1 else 0) + if a.isOpen then 1 else 0 := by
  rw [faults, h, isPoisoned]
  cases a.recorded path <;> cases a.isOpen <;> simp

theorem length_faults (path fileId : String) (accounts : List Account) :
    (accounts.flatMap (·.faults path)).length =
      accounts.countP (fun a => a.isCaptured && a.isDropped fileId) +
      accounts.countP (fun a => !a.isCaptured && !a.isOpen && a.isPoisoned path) +
      accounts.countP (fun a => !a.isCaptured && a.isOpen) +
      accounts.countP (fun a => !a.isCaptured && a.isOpen && a.isPoisoned path) := by
  induction accounts with
  | nil => rfl
  | cons a accounts ih =>
    rw [List.flatMap_cons, List.length_append, ih]
    simp only [List.countP_cons]
    cases hkind : a.isCaptured with
    | true =>
      rw [length_faults_captured fileId hkind]
      simp only [Bool.true_and, Bool.not_true, Bool.false_and, Bool.false_eq_true, if_false]
      omega
    | false =>
      rw [length_faults_scoped hkind]
      cases a.isOpen <;> cases a.isPoisoned path <;> simp <;> omega

theorem length_warnings (path fileId : String) (accounts : List Account) :
    (accounts.filterMap (·.warning? path fileId)).length = accounts.countP (·.isBare fileId) := by
  have hwarning (a : Account) : (a.warning? path fileId).isSome = a.isBare fileId := by
    unfold warning? isBare
    cases a.isCaptured with
    | true => rfl
    | false => cases a.container? fileId with
      | none => rfl
      | some c => cases hline : c.generatedBodyLine <;> simp [bareWarning?, hline]
  induction accounts with
  | nil => rfl
  | cons a accounts ih =>
    rw [List.filterMap_cons, List.countP_cons, ← hwarning a, ← ih]
    cases a.warning? path fileId <;> rfl

end Account

/-! ## Ledgers -/

/-- The accounts of the containers so far, and what belongs to none of them. -/
structure Ledger where
  scopes : Scopes := ⟨0, [], [], 0⟩
  accounts : List Account := []
  loose : List Item := []

/-- The container that an event opens, with the body of an enum. -/
def opened? : Except ScanFault Event → Option (Head × Option String)
  | .ok (.container position attributes declaration body) =>
    some (⟨position, attributes, declaration⟩, body)
  | _ => none

namespace Ledger

/-- The names of the open containers, outermost first. -/
def enclosing (l : Ledger) : List String :=
  l.scopes.frames.reverse.filterMap fun f => l.accounts[f.1]?.map (·.declared.head.name)

/-- The account of a container that is opened next. -/
def account (l : Ledger) (head : Head) (body : Option String) : Account :=
  let captured := isEnumDeclaration head.declaration.text
  let declared : Declared :=
    { namespaces := l.scopes.namespaces.reverse.flatMap (·.names)
      containers := l.enclosing
      head
      enumerators := if captured then (body.map Enumerator.parseAll).getD [] else [] }
  { declared, body
    isNamesake := !decide (declared.Fresh (l.accounts.map (·.declared)))
    isOpen := !captured }

/-- The ledger with an item: it belongs to the innermost open container, or to none. A label counts
only directly in a body. -/
def addItem (l : Ledger) (i : Item) : Ledger :=
  match l.scopes.frames with
  | [] => { l with loose := l.loose ++ [i] }
  | (slot, depth) :: _ =>
    if depth = l.scopes.depth || i.label?.isNone then
      { l with accounts := l.accounts.modify slot (·.add i) }
    else l

/-- The ledger at a closing brace, which may end the body of the innermost open container. -/
def closeBrace (l : Ledger) : Ledger :=
  match l.scopes.frames with
  | [] => l
  | (slot, depth) :: _ =>
    if depth = l.scopes.depth then { l with accounts := l.accounts.modify slot Account.close }
    else l

/-- The ledger after an event, but for the scopes. -/
def enter (l : Ledger) : Except ScanFault Event → Ledger
  | .ok (.container position attributes declaration body) =>
    { l with accounts := l.accounts ++ [l.account ⟨position, attributes, declaration⟩ body] }
  | .ok (.closeBrace _) => l.closeBrace
  | e => (Item.ofEvent? e).elim l l.addItem

/-- The ledger after an event or a fault in its place. -/
def take (l : Ledger) (e : Except ScanFault Event) : Ledger :=
  { l.enter e with scopes := l.scopes.take e }

/-- The ledger after a sequence of events. -/
def takeAll (l : Ledger) (events : List (Except ScanFault Event)) : Ledger :=
  events.foldl take l

/-! ## What a ledger holds -/

/-- What the ledger has of the items, but for labels. -/
def held (l : Ledger) : List Item :=
  (l.accounts.flatMap (·.declared.items) ++ l.loose).filter (·.label?.isNone)

variable {l : Ledger}

/-- An account with a further item keeps its container. -/
theorem map_addItem {α : Type} (i : Item) {p : Account → α}
    (hp : ∀ a, p (a.add i) = p a) : (l.addItem i).accounts.map p = l.accounts.map p := by
  unfold addItem
  split
  · rfl
  · split
    · exact map_modify fun a _ => hp a
    · rfl

/-- A closed account keeps its container and its items. -/
theorem map_closeBrace {α : Type} {p : Account → α} (hp : ∀ a, p a.close = p a) :
    l.closeBrace.accounts.map p = l.accounts.map p := by
  unfold closeBrace
  split
  · rfl
  · split
    · exact map_modify fun a _ => hp a
    · rfl

/-- A container event has an account, and no other event. -/
theorem heads_enter (e : Except ScanFault Event) :
    (l.enter e).accounts.map (fun a => (a.declared.head, a.body)) =
      l.accounts.map (fun a => (a.declared.head, a.body)) ++ (opened? e).toList := by
  cases e with
  | error f => exact (map_addItem _ fun _ => rfl).trans (List.append_nil _).symm
  | ok e =>
    cases e with
    | container position attributes declaration body => exact List.map_append
    | property | function | generatedBody | label =>
      exact (map_addItem _ fun _ => rfl).trans (List.append_nil _).symm
    | closeBrace position =>
      exact (map_closeBrace fun _ => rfl).trans (List.append_nil _).symm
    | openNamespace | openBrace => exact (List.append_nil _).symm

/-- An item is added once, unless it is a label. -/
theorem perm_addItem (h : ∀ f ∈ l.scopes.frames, f.1 < l.accounts.length) (i : Item) :
    (l.addItem i).held.Perm (l.held ++ [i].filter (·.label?.isNone)) := by
  unfold addItem
  split
  · rw [held, held, ← List.append_assoc, List.filter_append]
  · rename_i slot depth outer hframes
    split
    · have hslot : slot < l.accounts.length := h (slot, depth) (hframes ▸ List.mem_cons_self)
      obtain ⟨a, ha⟩ : ∃ a, l.accounts[slot]? = some a := ⟨_, List.getElem?_eq_getElem hslot⟩
      obtain ⟨pre, post, hsplit, -, hmodify⟩ := exists_split_modify ha (·.add i)
      unfold held
      rw [← List.filter_append]
      refine List.Perm.filter _ ?_
      dsimp only
      rw [hmodify, hsplit]
      simp only [List.flatMap_append, List.flatMap_cons, Account.add, List.append_assoc]
      refine List.Perm.append_left _ (List.Perm.append_left _ ?_)
      rw [← List.append_assoc _ l.loose]
      exact List.perm_append_comm
    · rename_i hcounts
      simp only [Bool.or_eq_true, not_or] at hcounts
      simp [hcounts.2]

theorem enter_item (i : Item) : l.enter i.event = l.addItem i := by
  cases i <;> rfl

/-- An item that is no label is added once. -/
theorem perm_enter (h : ∀ f ∈ l.scopes.frames, f.1 < l.accounts.length)
    (e : Except ScanFault Event) :
    (l.enter e).held.Perm (l.held ++ (Item.ofEvent? e).toList.filter (·.label?.isNone)) := by
  cases he : Item.ofEvent? e with
  | some i =>
    obtain rfl := Item.ofEvent?_eq_some_iff.1 he
    rw [enter_item]
    exact perm_addItem h i
  | none =>
    have hheld : (l.enter e).held = l.held := by
      cases e with
      | error f => cases he
      | ok e =>
        cases e with
        | container position attributes declaration body => simp [held, enter, account]
        | openNamespace | openBrace => rfl
        | closeBrace position =>
          have hloose : l.closeBrace.loose = l.loose := by
            unfold closeBrace
            split
            · rfl
            · split <;> rfl
          have hitems := map_closeBrace (l := l) (p := fun a => a.declared.items) fun _ => rfl
          show l.closeBrace.held = l.held
          rw [held, List.flatMap_def, hitems, hloose]
          rfl
        | property | function | generatedBody | label => cases he
    rw [hheld]
    exact .of_eq (List.append_nil _).symm

end Ledger

end HeaderReflection
