import HeaderReflection.Proofs.Scope.Books

/-!
# The balance of a file

The ledger of a file is kept from its events alone. It has an account for each container event, and
tells what the model of the file has: the containers that are returned, the faults and the warnings.

* `Ledger.Tracks.take`: a ledger and a builder take an event alike.
* `Ledger.holds_takeAll`: no event is lost or counted twice in a ledger.
* `FileModel.ofEvents_balances`: what is returned, reported and warned about is what the ledger
  says.
-/

namespace HeaderReflection

/-! ## Ledgers and builders -/

/-- The ledger has the scopes of the builder, and its accounts tell what the builder has. -/
structure Ledger.Tracks (path fileId : String) (l : Ledger) (b : Builder) : Prop where
  scopes : b.scopes = l.scopes
  books : Books path fileId l.accounts l.loose b

namespace Ledger.Tracks

variable {path fileId : String} {l : Ledger} {b : Builder}

theorem frames_eq (h : Tracks path fileId l b) :
    l.scopes.frames = b.frames.map fun f => (f.slot, f.depth) := by
  rw [← h.scopes]
  rfl

theorem depth_eq (h : Tracks path fileId l b) : l.scopes.depth = b.depth := by
  rw [← h.scopes]
  rfl

/-- What is opened next is opened in the scopes of the ledger. -/
theorem within (h : Tracks path fileId l b) (head : Head) (body : Option String) :
    b.Within (l.account head body).declared.namespaces
      (l.account head body).declared.containers := by
  refine ⟨?_, ?_⟩
  · show _ = l.scopes.namespaces.reverse.flatMap (·.names)
    rw [← h.scopes]
    rfl
  · show _ = l.enclosing
    have hname : ∀ f ∈ b.frames, l.accounts[f.slot]?.map (·.declared.head.name) =
        some f.container.name := by
      intro f hf
      obtain ⟨a, ha, -⟩ := h.books.opens.isOpen f.slot (List.mem_map_of_mem hf)
      rw [ha, (h.books.shows f hf a ha).name]
      rfl
    rw [enclosing, h.frames_eq, ← List.map_reverse, List.filterMap_map, ← List.filterMap_eq_map]
    refine List.filterMap_congr fun f hf => ?_
    exact (hname f (List.mem_reverse.1 hf)).symm

/-- A container has no fault but that of its opening, as it is opened. -/
theorem head?_recorded_account (h : Tracks path fileId l b) (head : Head) (body : Option String) :
    ((l.account head body).recorded path).head? =
      (b.containerOf head.attributes head.declaration).2 := by
  have hopening := Builder.containerOf_fault (h.within head body) h.books.names rfl
  rw [h.books.path_eq] at hopening
  have hrecorded : (l.account head body).recorded path =
      ((l.account head body).opening? path).toList := List.append_nil _
  rw [hrecorded, ← hopening, Option.head?_toList]
  rfl

/-- A container that is opened without a fault is recorded with the enumerators of an enum. -/
theorem record_account (h : Tracks path fileId l b) {head : Head} (body : Option String)
    {c : Container} (hc : b.containerOf head.attributes head.declaration = (c, none)) :
    (l.account head body).declared.record fileId =
      some { c with enumerators := (l.account head body).declared.enumerators } := by
  rw [← h.books.fileId_eq]
  exact Declared.record_of_opened (h.within head body) rfl hc

/-- A class or struct that is opened has an open account. -/
theorem openClass (h : Tracks path fileId l b) {head : Head} (body : Option String)
    (hclass : isEnumDeclaration head.declaration.text = false) :
    Books path fileId (l.accounts ++ [l.account head body]) l.loose
      (b.openContainer head.attributes head.declaration body) := by
  rcases hc : b.containerOf head.attributes head.declaration with ⟨c, fault⟩
  have hw := h.within head body
  have hcaptured : (l.account head body).isCaptured = false := hclass
  have hopen : (l.account head body).isOpen = true := by
    show (!isEnumDeclaration head.declaration.text) = true
    rw [hclass]
    rfl
  have hnone : (l.account head body).container? fileId = none :=
    Account.container?_of_isOpen hopen hcaptured
  have hcount : b.slots.length = l.accounts.length := by rw [h.books.slots, List.length_map]
  rw [Builder.openContainer_of_class hc hclass]
  refine h.books.push rfl rfl ?_ (fun f hf => ?_) ?_ (Builder.taken_concat hw h.books.names hc) ?_
    rfl (Account.warning?_eq_none hnone)
  · rw [hopen, hcount]
    rfl
  · rcases List.mem_cons.1 hf with rfl | hf
    · have hfault := h.head?_recorded_account head body
      have hname := b.containerOf_name head
      obtain ⟨_, _, _, _, _, hempty⟩ := b.containerOf_empty head.attributes head.declaration
      rw [hc] at hfault hname hempty
      refine .inr ⟨hcount, hfault.symm, hname, congrArg Container.position hempty, hcaptured, ?_⟩
      rintro rfl
      have hrecord := h.record_account body hc
      have henumerators : (l.account head body).declared.enumerators = c.enumerators := by
        rw [show c.enumerators = [] from congrArg Container.enumerators hempty]
        exact if_neg (Bool.eq_false_iff.1 hclass)
      rw [henumerators] at hrecord
      exact ⟨hrecord, rfl⟩
    · exact .inl hf
  · rw [hnone]
  · rw [Account.settled, if_pos hopen, List.append_nil]

/-- An enum is charged with the fault of its opening, or with the body that is missing. -/
theorem faults_enum (h : Tracks path fileId l b) {head : Head} (body : Option String)
    (henum : isEnumDeclaration head.declaration.text = true) {c : Container}
    {fault : Option Fault} (hc : b.containerOf head.attributes head.declaration = (c, fault)) :
    (l.account head body).faults path =
      (fault.or (if body.isNone then
        some (.unterminatedContainer b.path c.position c.name) else none)).toList := by
  have hcaptured : (l.account head body).isCaptured = true := henum
  have hfault := h.head?_recorded_account head body
  have hname := b.containerOf_name head
  obtain ⟨_, _, _, _, _, hempty⟩ := b.containerOf_empty head.attributes head.declaration
  rw [hc] at hfault hname hempty
  have hbody : (l.account head body).body = body := rfl
  rw [Account.faults, if_pos hcaptured, hfault, hbody, show c.name = head.name from hname,
    show c.position = _ from congrArg Container.position hempty, h.books.path_eq]
  cases fault <;> cases body <;> rfl

/-- An enum has an account that is closed. -/
theorem openEnum (h : Tracks path fileId l b) {head : Head} (body : Option String)
    (henum : isEnumDeclaration head.declaration.text = true) :
    Books path fileId (l.accounts ++ [l.account head body]) l.loose
      (b.openContainer head.attributes head.declaration body) := by
  rcases hc : b.containerOf head.attributes head.declaration with ⟨c, fault⟩
  have hcaptured : (l.account head body).isCaptured = true := henum
  have hopen : (l.account head body).isOpen = false := by
    show (!isEnumDeclaration head.declaration.text) = false
    rw [henum]
    rfl
  have hfaults := h.faults_enum body henum hc
  have hnames := Builder.taken_concat (h.within head body) h.books.names hc
  simp only [Builder.openContainer, hc, henum, if_true]
  cases fault with
  | some fault =>
    refine h.books.pushClosed hcaptured hopen rfl rfl rfl ?_ hnames ?_ rfl
    · rw [Account.container?_eq_none path (by rw [hfaults]; simp)]
      rfl
    · rw [hfaults]
      rfl
  | none =>
    cases body with
    | none =>
      refine h.books.pushClosed hcaptured hopen rfl rfl rfl ?_ hnames ?_ rfl
      · rw [Account.container?_eq_none path (by rw [hfaults]; simp)]
        rfl
      · rw [hfaults]
        rfl
    | some text =>
      have henumerators : (l.account head (some text)).declared.enumerators =
          Enumerator.parseAll text := if_pos henum
      refine h.books.pushClosed hcaptured hopen rfl rfl rfl ?_ hnames ?_ rfl
      · rw [Account.container?_of_faults_eq_nil hfaults, h.record_account _ hc, henumerators]
        rfl
      · rw [hfaults]
        exact (List.append_nil _).symm

/-- An item is entered in the ledger. -/
theorem item (h : Tracks path fileId l b) (i : Item) :
    Books path fileId (l.addItem i).accounts (l.addItem i).loose (b.take i.event) := by
  have hframes := h.frames_eq
  cases hf : b.frames with
  | nil =>
    rw [hf] at hframes
    rw [addItem, hframes]
    exact h.books.addLoose hf i
  | cons f outer =>
    have hadd : l.addItem i = if b.direct || i.label?.isNone then
        { l with accounts := l.accounts.modify f.slot (·.add i) } else l := by
      rw [addItem, hframes, h.depth_eq, Builder.direct, hf]
      rfl
    rw [hadd]
    split
    · rename_i hcounts
      obtain ⟨g, htake, hgains, hfault⟩ := Builder.take_item_fault hf i
      rw [if_pos hcounts] at hgains
      rw [h.books.path_eq] at hfault
      rw [htake]
      exact h.books.add hf hgains hfault
    · -- Only a label is passed over.
      rename_i hcounts
      cases i with
      | label position v =>
        have hsame : b.take (Item.label position v).event = b :=
          Builder.setVisibility_of_not_direct (by simpa [Item.label?] using hcounts) v
        rw [hsame]
        exact h.books
      | _ => simp [Item.label?] at hcounts

/-- A closing brace is entered in the ledger. -/
theorem brace (h : Tracks path fileId l b) :
    Books path fileId l.closeBrace.accounts l.closeBrace.loose b.closeScope := by
  have hframes := h.frames_eq
  unfold Builder.closeScope
  cases hf : b.frames with
  | nil =>
    rw [hf] at hframes
    rw [closeBrace, hframes]
    exact h.books.closeNamespace
  | cons f outer =>
    have hclose : l.closeBrace = if f.depth = b.depth then
        { l with accounts := l.accounts.modify f.slot Account.close } else l := by
      rw [closeBrace, hframes, h.depth_eq, hf]
      rfl
    rw [hclose]
    dsimp only
    split
    · exact h.books.close hf
    · exact h.books.closeNamespace

/-- An event is entered in the ledger. -/
theorem enter (h : Tracks path fileId l b) (e : Except ScanFault Event) :
    Books path fileId (l.enter e).accounts (l.enter e).loose (b.take e) := by
  cases he : Item.ofEvent? e with
  | some i =>
    rw [← Item.ofEvent?_eq_some_iff.1 he, enter_item]
    exact h.item i
  | none =>
    cases e with
    | error f => cases he
    | ok e =>
      cases e with
      | container position attributes declaration body =>
        let head : Head := ⟨position, attributes, declaration⟩
        cases hkind : isEnumDeclaration declaration.text with
        | true => exact @openEnum _ _ _ _ h head body hkind
        | false => exact @openClass _ _ _ _ h head body hkind
      | openNamespace position name => exact h.books.move _ _
      | openBrace position => exact h.books.move _ _
      | closeBrace position => exact h.brace.move _ _
      | property | function | generatedBody | label => cases he

/-- A ledger and a builder take an event alike. -/
theorem take (h : Tracks path fileId l b) (e : Except ScanFault Event) :
    Tracks path fileId (l.take e) (b.take e) where
  scopes := by
    rw [Builder.scopes_take, h.scopes]
    cases e <;> rfl
  books := h.enter e

/-- A ledger and a builder take a sequence of events alike. -/
theorem takeAll (h : Tracks path fileId l b) (es : List (Except ScanFault Event)) :
    Tracks path fileId (l.takeAll es) (b.takeAll es) := by
  induction es generalizing l b with
  | nil => exact h
  | cons e es ih => exact ih (h.take e)

theorem start (path fileId : String) : Tracks path fileId {} { path, fileId } :=
  ⟨rfl, .start path fileId⟩

/-- An open container is charged with its fault and with the end that is missing. -/
theorem unclosed_eq (h : Tracks path fileId l b) {f : Frame} (hf : f ∈ b.frames) :
    b.unclosed f = l.accounts[f.slot]?.elim [] (·.faults path) := by
  obtain ⟨a, ha, hopen⟩ := h.books.opens.isOpen f.slot (List.mem_map_of_mem hf)
  have hshows := h.books.shows f hf a ha
  rw [ha, Option.elim_some, Account.faults, hshows.notCaptured, hopen, Builder.unclosed,
    hshows.fault, hshows.position, hshows.name, h.books.path_eq]
  rfl

/-- At the end of a file all accounts are settled. -/
theorem faults_finish (h : Tracks path fileId l b) :
    b.finish.faults.Perm
      (l.accounts.flatMap (·.faults path) ++ l.loose.filterMap (Item.looseFault? path)) := by
  have hopen : (b.frames.reverse.flatMap b.unclosed).Perm
      (l.accounts.flatMap fun a => if a.isOpen then a.faults path else []) := by
    have hperm := h.books.opens.perm_flatMap (·.faults path)
    rw [List.flatMap_map] at hperm
    refine ((List.reverse_perm _).flatMap_right _).trans ?_
    rwa [List.flatMap_congr fun f hf => h.unclosed_eq hf]
  have hall : ∀ a : Account,
      a.settled path ++ (if a.isOpen then a.faults path else []) = a.faults path := by
    intro a
    unfold Account.settled
    split <;> simp
  have hsettled := List.flatMap_append_perm l.accounts (·.settled path)
    fun a => if a.isOpen then a.faults path else []
  simp only [hall] at hsettled
  refine (perm_insert h.books.faults _).trans ?_
  rw [← List.append_assoc]
  exact ((hopen.append_left _).trans hsettled).append_right _

/-- The accounts of the open containers are open, and no others. -/
theorem opens (h : Tracks path fileId l b) : Opens l.accounts (l.scopes.frames.map Prod.fst) := by
  have hopens := h.books.opens
  rw [h.frames_eq, List.map_map]
  exact hopens

end Ledger.Tracks

/-- The ledger has all events, in the scopes that they are in: each container event has its account,
in order, and each item that is no label belongs to one account or is loose. -/
structure Ledger.Holds (events : List (Except ScanFault Event)) (l : Ledger) : Prop where
  scopes : l.scopes = events.foldl Scopes.take ⟨0, [], [], 0⟩
  opens : Opens l.accounts (l.scopes.frames.map Prod.fst)
  heads : l.accounts.map (fun a => (a.declared.head, a.body)) = events.filterMap opened?
  items : l.held.Perm ((events.filterMap Item.ofEvent?).filter (·.label?.isNone))

theorem Ledger.Holds.take {events : List (Except ScanFault Event)} {l : Ledger}
    (h : l.Holds events) {e : Except ScanFault Event}
    (hopens : Opens (l.take e).accounts ((l.take e).scopes.frames.map Prod.fst)) :
    (l.take e).Holds (events ++ [e]) := by
  have hconcat {α : Type} (p : Except ScanFault Event → Option α) :
      (events ++ [e]).filterMap p = events.filterMap p ++ (p e).toList := by
    rw [List.filterMap_append, filterMap_singleton]
  refine ⟨?_, hopens, ?_, ?_⟩
  · rw [List.foldl_concat, ← h.scopes]
    rfl
  · rw [hconcat, ← h.heads]
    exact heads_enter e
  · rw [hconcat, List.filter_append]
    refine (perm_enter (fun f hf => ?_) e).trans (h.items.append_right _)
    exact h.opens.lt f.1 (List.mem_map_of_mem hf)

/-- A ledger loses no event, and counts none twice. -/
theorem Ledger.holds_takeAll (events : List (Except ScanFault Event)) :
    (Ledger.takeAll {} events).Holds events := by
  induction events using List.reverseRecOn with
  | nil => exact ⟨rfl, ((Tracks.start "" "").takeAll []).opens, rfl, .nil⟩
  | append_singleton es e ih =>
    -- A ledger is the same for all paths and files.
    have hopens := ((Tracks.start "" "").takeAll (es ++ [e])).opens
    have hlast : Ledger.takeAll {} (es ++ [e]) = (Ledger.takeAll {} es).take e :=
      List.foldl_concat ..
    rw [hlast] at hopens ⊢
    exact ih.take hopens

/-- What a ledger says about the model of its file. -/
structure Ledger.Balances (path fileId : String) (l : Ledger) (m : FileModel) : Prop where
  containers : m.containers = l.accounts.filterMap (·.container? fileId)
  /-- A container is dropped just if it is charged with a fault of its own. -/
  dropped : ∀ a ∈ l.accounts, a.container? fileId = none ↔ a.faults path ≠ []
  /-- Nothing is reported but the faults that the containers are charged with, and those of loose
  items. -/
  faults : m.faults.Perm
    (l.accounts.flatMap (·.faults path) ++ l.loose.filterMap (Item.looseFault? path))
  /-- There is one fault for each enum that is dropped, one for each class or struct whose body has
  ended with a fault in it, one for each whose body has not ended, and one more if there is a fault
  in it. A property, a function and a marker's fault outside of all containers are one each. -/
  faultCount : m.faults.length =
    l.accounts.countP (fun a => a.isCaptured && a.isDropped fileId) +
    l.accounts.countP (fun a => !a.isCaptured && !a.isOpen && a.isPoisoned path) +
    l.accounts.countP (fun a => !a.isCaptured && a.isOpen) +
    l.accounts.countP (fun a => !a.isCaptured && a.isOpen && a.isPoisoned path) +
    l.loose.countP Item.isMember +
    l.loose.countP Item.isFault
  warnings : m.warnings.Perm
    (l.accounts.filterMap (·.warning? path fileId) ++ l.loose.filterMap (Item.looseWarning? path))
  /-- There is one warning for each generated-body marker outside of all containers, and one for
  each class or struct that is returned without one. -/
  warningCount : m.warnings.length =
    l.loose.countP Item.isMarker + l.accounts.countP (·.isBare fileId)
  /-- Nothing is reported just if nothing is dropped, loose or malformed. -/
  clean : m.faults = [] ↔
    (∀ a ∈ l.accounts, a.isDropped fileId = false ∧ a.isSound = true) ∧
      ∀ i ∈ l.loose, i.isMember = false ∧ i.isFault = false

theorem Ledger.Tracks.balances {path fileId : String} {l : Ledger} {b : Builder}
    (h : Tracks path fileId l b) : l.Balances path fileId b.finish := by
  have hwarnings := h.books.warnings
  rw [← List.filterMap_eq_flatMap_toList] at hwarnings
  have hnil : b.finish.faults = [] ↔
      l.accounts.flatMap (·.faults path) ++ l.loose.filterMap (Item.looseFault? path) = [] := by
    rw [← List.perm_nil, ← List.perm_nil]
    exact ⟨h.faults_finish.symm.trans, h.faults_finish.trans⟩
  refine ⟨?_, fun a _ => ?_, h.faults_finish, ?_, hwarnings, ?_, ?_⟩
  · rw [Builder.finish, h.books.slots, List.filterMap_map]
    rfl
  · rw [← Account.isDropped_iff path fileId, Account.isDropped, Option.isNone_iff_eq_none]
  · rw [h.faults_finish.length_eq, List.length_append, Account.length_faults path fileId,
      Item.length_looseFaults, ← Nat.add_assoc]
  · rw [Builder.finish, hwarnings.length_eq, List.length_append, Account.length_warnings,
      Item.length_looseWarnings, Nat.add_comm]
  · rw [hnil, List.append_eq_nil_iff, List.flatMap_eq_nil_iff, List.filterMap_eq_nil_iff]
    refine and_congr (forall₂_congr fun a _ => ?_) (forall₂_congr fun i _ => ?_)
    · rw [← Bool.not_eq_true, Account.isDropped_iff path fileId, Decidable.not_not]
      exact (and_iff_left_of_imp Account.isSound_of_faults).symm
    · cases i <;> simp [Item.looseFault?, Item.isMember, Item.isFault]

/-- Every container event is accounted for: the ledger of any sequence of events has an account for
each of them, and what is returned, reported and warned about is what the accounts tell, together
with what belongs to no container. -/
theorem FileModel.ofEvents_balances (path fileId : String)
    (events : List (Except ScanFault Event)) :
    (Ledger.takeAll {} events).Holds events ∧
      (Ledger.takeAll {} events).Balances path fileId (.ofEvents path fileId events) := by
  have htracks := (Ledger.Tracks.start path fileId).takeAll events
  exact ⟨Ledger.holds_takeAll events, htracks.balances⟩

end HeaderReflection
