import HeaderReflection.Proofs.Scope.Ledger

/-!
# The books of a builder

What a builder has of a file is told by accounts of the containers so far and by what is loose. The
accounts of closed containers tell its slots, its faults and its warnings. Those that are open are
the accounts of its frames, whose faults are reported at the end of the file at the latest.

* `Opens`: which accounts are open. Their places are all different.
* `Frame.Shows`: the frame of an open account.
* `Books.add`, `Books.close`, `Books.push`, `Books.addLoose`: what an event changes.
-/

namespace HeaderReflection

namespace Builder

variable {b : Builder}

/-! ## Items -/

/-- The innermost frame keeps its first fault, or takes that of the item. -/
theorem head_fault_take_item {f : Frame} {outer : List Frame} (hf : b.frames = f :: outer)
    (i : Item) : (b.take i.event).frames.head?.map (·.fault) =
      some (f.fault.or (i.fault? b.path)) := by
  cases i with
  | property position a d =>
    simp only [Item.event, take, process, addProperty, hf, Item.fault?]
    cases parseAttributes b.path a with
    | error _ => rfl
    | ok attributes =>
      cases Variable.parse d.text with
      | error cause => rfl
      | ok v =>
        dsimp only
        split
        · rfl
        · simp
  | function position a d =>
    simp only [Item.event, take, process, addMethod, hf, Item.fault?]
    cases parseAttributes b.path a with
    | error _ => rfl
    | ok attributes => cases Signature.parse d.text <;> simp [Frame.blame, malformed]
  | generatedBody position a => simp [Item.event, take, process, markBody, hf, Item.fault?]
  | label position v =>
    simp only [Item.event, take, process, setVisibility, hf, Item.fault?]
    split <;> simp [hf]
  | fault e => simp [Item.event, take, fail, hf, Item.fault?, Frame.blame]

theorem take_item_fault {f : Frame} {outer : List Frame} (hf : b.frames = f :: outer) (i : Item) :
    ∃ g, b.take i.event = { b with frames := g :: outer } ∧
      f.Gains (if b.direct || i.label?.isNone then [i] else []) g ∧
      g.fault = f.fault.or (i.fault? b.path) := by
  obtain ⟨g, htake, hgains⟩ := take_item_frame hf i
  have hfault := head_fault_take_item hf i
  rw [htake] at hfault
  exact ⟨g, htake, hgains, Option.some.inj hfault⟩

/-- Outside of all containers an item is reported, if it has a fault there, or warned about. -/
theorem take_item_loose (hf : b.frames = []) (i : Item) :
    b.take i.event = { b with
      faults := b.faults ++ (i.looseFault? b.path).toList
      warnings := b.warnings ++ (i.looseWarning? b.path).toList } := by
  cases i with
  | property position a d =>
    simp [Item.event, take, process, addProperty, hf, report, Item.looseFault?, Item.looseWarning?,
      malformed]
  | function position a d =>
    simp [Item.event, take, process, addMethod, hf, report, Item.looseFault?, Item.looseWarning?,
      malformed]
  | generatedBody position a =>
    simp [Item.event, take, process, markBody, hf, warn, Item.looseFault?, Item.looseWarning?,
      warningAt]
  | fault e => simp [Item.event, take, fail, hf, report, Item.looseFault?, Item.looseWarning?]
  | label position v =>
    have hsame : b.take (Item.label position v).event = b :=
      setVisibility_of_not_direct (by simp [direct, hf]) v
    rw [hsame]
    simp [Item.looseFault?, Item.looseWarning?]

/-! ## Containers as they are opened -/

/-- The first fault of a container is that of its account as it is opened. -/
theorem containerOf_fault {earlier : List Declared} {a : Account}
    (hw : b.Within a.declared.namespaces a.declared.containers) (hk : Taken earlier b.names)
    (hn : a.isNamesake = !decide (a.declared.Fresh earlier)) :
    (b.containerOf a.declared.head.attributes a.declared.head.declaration).2 =
      a.opening? b.path := by
  have hq := containerOf_qualifiedName hw
  have hm := mem_names_iff (d := a.declared) hk
  revert hq
  unfold containerOf Account.opening?
  cases Header.parse a.declared.head.declaration.text with
  | error _ => simp [malformed]
  | ok header =>
    cases parseAttributes b.path a.declared.head.attributes with
    | error _ => simp
    | ok attributes =>
      dsimp only
      split
      · rename_i hc
        intro hq
        rw [List.contains_iff_mem, hq, hm] at hc
        simp [hn, hc]
      · rename_i hc
        intro hq
        rw [List.contains_iff_mem, hq, hm, Decidable.not_not] at hc
        simp [hn, hc]

end Builder

namespace Declared

/-- The record of a container that has just been opened without a fault is the container, with the
enumerators of an enum. -/
theorem record_of_opened {b : Builder} {d : Declared} (hw : b.Within d.namespaces d.containers)
    (hitems : d.items = []) {c : Container}
    (h : b.containerOf d.head.attributes d.head.declaration = (c, none)) :
    d.record b.fileId = some { c with enumerators := d.enumerators } := by
  rw [Builder.record_of_containerOf hw h, hitems]
  simp [Item.properties, Item.methods, Item.accessed, Item.bodyLine]

/-- The record of a container with a further item is that of the frame behind the item. -/
theorem record_add {d : Declared} {fileId : String} {f g : Frame} {items : List Item}
    (hg : f.Gains items g) (hrecord : d.record fileId = some f.container)
    (haccess : f.visibility = Item.accessAfter f.container.kind.defaultVisibility d.items) :
    { d with items := d.items ++ items }.record fileId = some g.container ∧
      g.visibility =
        Item.accessAfter g.container.kind.defaultVisibility (d.items ++ items) := by
  obtain ⟨fault, rfl, -⟩ := hg
  have hkind : (f.withItems items fault).container.kind = f.container.kind := rfl
  refine ⟨?_, ?_⟩
  · unfold record at hrecord ⊢
    split at hrecord
    · rename_i header attributes hheader hattributes
      have hcontainer := Option.some.inj hrecord
      have hkind : f.container.kind = header.kind := by rw [← hcontainer]
      rw [hkind] at haccess
      simp only [hheader, hattributes, Frame.withItems, Item.properties_append,
        Item.methods_append, Item.bodyLine_append, ← haccess, ← hcontainer]
      rfl
    · cases hrecord
  · rw [hkind, Item.accessAfter_append, ← haccess]
    rfl

end Declared

/-! ## Open accounts -/

/-- The accounts at these places are open, and no others. -/
structure Opens (accounts : List Account) (places : List Nat) : Prop where
  nodup : places.Nodup
  isOpen : ∀ k ∈ places, ∃ a, accounts[k]? = some a ∧ a.isOpen = true
  only : ∀ (k : Nat) a, accounts[k]? = some a → a.isOpen = true → k ∈ places

namespace Opens

variable {accounts : List Account} {places : List Nat} {k : Nat} {a : Account}

theorem lt (h : Opens accounts places) : ∀ k ∈ places, k < accounts.length := by
  intro k hk
  obtain ⟨a, ha, -⟩ := h.isOpen k hk
  exact (List.getElem?_eq_some_iff.1 ha).1

theorem modify (h : Opens accounts places) {u : Account → Account}
    (hu : ∀ a, (u a).isOpen = a.isOpen) (k : Nat) : Opens (accounts.modify k u) places := by
  refine ⟨h.nodup, fun j hj => ?_, fun j a ha hopen => ?_⟩
  · obtain ⟨a, ha, hopen⟩ := h.isOpen j hj
    refine ⟨if k = j then u a else a, by rw [List.getElem?_modify, ha]; rfl, ?_⟩
    split <;> simp [hu, hopen]
  · obtain ⟨a', ha', rfl⟩ := Option.map_eq_some_iff.1 ((List.getElem?_modify ..).symm.trans ha)
    refine h.only j a' ha' ?_
    split at hopen
    · rwa [hu] at hopen
    · exact hopen

/-- The account of the innermost container is closed. -/
theorem close (h : Opens accounts (k :: places)) :
    Opens (accounts.modify k Account.close) places := by
  obtain ⟨hk, hplaces⟩ := List.nodup_cons.1 h.nodup
  refine ⟨hplaces, fun j hj => ?_, fun j a ha hopen => ?_⟩
  · have hne : k ≠ j := by
      rintro rfl
      exact hk hj
    rw [List.getElem?_modify_ne _ _ hne]
    exact h.isOpen j (List.mem_cons_of_mem _ hj)
  · obtain ⟨a', ha', rfl⟩ := Option.map_eq_some_iff.1 ((List.getElem?_modify ..).symm.trans ha)
    split at hopen
    · cases hopen
    · rename_i hne
      exact List.mem_of_ne_of_mem (Ne.symm hne) (h.only j a' ha' hopen)

theorem push (h : Opens accounts places) (a : Account) :
    Opens (accounts ++ [a]) (if a.isOpen then accounts.length :: places else places) := by
  have hold : ∀ k ∈ places, (accounts ++ [a])[k]? = accounts[k]? := fun k hk =>
    List.getElem?_append_left (h.lt k hk)
  have hopen : ∀ k ∈ places, ∃ a', (accounts ++ [a])[k]? = some a' ∧ a'.isOpen = true :=
    fun k hk => by rw [hold k hk]; exact h.isOpen k hk
  have honly : ∀ (k : Nat) a', (accounts ++ [a])[k]? = some a' → a'.isOpen = true →
      k ∈ places ∨ (k = accounts.length ∧ a' = a) := by
    intro k a' ha' hopen'
    rcases Nat.lt_trichotomy k accounts.length with hk | rfl | hk
    · rw [List.getElem?_append_left hk] at ha'
      exact .inl (h.only k a' ha' hopen')
    · rw [List.getElem?_concat_length] at ha'
      exact .inr ⟨rfl, (Option.some.inj ha').symm⟩
    · rw [List.getElem?_eq_none (by rw [List.length_append]; exact hk)] at ha'
      cases ha'
  split
  · rename_i hnew
    refine ⟨List.nodup_cons.2 ⟨fun hk => Nat.lt_irrefl _ (h.lt _ hk), h.nodup⟩, ?_, ?_⟩
    · intro k hk
      rcases List.mem_cons.1 hk with rfl | hk
      · exact ⟨a, List.getElem?_concat_length, hnew⟩
      · exact hopen k hk
    · intro k a' ha' hopen'
      rcases honly k a' ha' hopen' with hk | ⟨rfl, -⟩
      · exact List.mem_cons_of_mem _ hk
      · exact List.mem_cons_self
  · rename_i hnew
    refine ⟨h.nodup, hopen, fun k a' ha' hopen' => ?_⟩
    rcases honly k a' ha' hopen' with hk | ⟨-, rfl⟩
    · exact hk
    · exact absurd hopen' hnew

/-- What open accounts hold is what the accounts at their places hold. -/
theorem perm_flatMap (h : Opens accounts places) (p : Account → List Fault) :
    (places.flatMap fun k => accounts[k]?.elim [] p).Perm
      (accounts.flatMap fun a => if a.isOpen then p a else []) := by
  -- The accounts are closed one by one.
  induction places generalizing accounts with
  | nil =>
    have hnone : (accounts.flatMap fun a => if a.isOpen then p a else []) = [] := by
      rw [List.flatMap_eq_nil_iff]
      intro a ha
      obtain ⟨k, hk⟩ := List.mem_iff_getElem?.1 ha
      rw [if_neg fun hopen => by cases h.only k a hk hopen]
    rw [hnone]
    exact .nil
  | cons k places ih =>
    obtain ⟨a, ha, hopen⟩ := h.isOpen k List.mem_cons_self
    obtain ⟨pre, post, hsplit, -, hmodify⟩ := exists_split_modify ha Account.close
    have hrest := ih h.close
    have hsame : ∀ j ∈ places, (accounts.modify k Account.close)[j]?.elim [] p =
        accounts[j]?.elim [] p := by
      intro j hj
      have hne : k ≠ j := by
        rintro rfl
        exact (List.nodup_cons.1 h.nodup).1 hj
      rw [List.getElem?_modify_ne _ _ hne]
    rw [List.flatMap_congr hsame, hmodify] at hrest
    rw [List.flatMap_cons, ha, hsplit]
    simp only [List.flatMap_append, List.flatMap_cons, Account.close, Bool.false_eq_true, if_false,
      List.nil_append, hopen, if_true, Option.elim_some] at hrest ⊢
    rw [← hsplit]
    exact (hrest.append_left (p a)).trans (List.perm_append_comm_assoc ..)

end Opens

/-! ## Builders and their books -/

namespace Account

variable {a : Account} {path fileId : String}

/-- What a container that has ended is charged with. -/
def settled (path : String) (a : Account) : List Fault :=
  if a.isOpen then [] else a.faults path

theorem container?_of_isOpen (hopen : a.isOpen = true) (hscoped : a.isCaptured = false) :
    a.container? fileId = none := by
  simp [container?, isReturned, hopen, hscoped]

theorem container?_eq_none (path : String) (h : a.faults path ≠ []) :
    a.container? fileId = none := by
  rw [container?, if_neg (mt faults_eq_nil_iff.2 h)]

theorem container?_of_faults_eq_nil (h : a.faults path = []) :
    a.container? fileId = a.declared.record fileId := by
  rw [container?, if_pos (faults_eq_nil_iff.1 h)]

theorem warning?_eq_none (h : a.container? fileId = none) :
    a.warning? path fileId = none := by
  unfold warning?
  rw [h]
  split <;> rfl

end Account

/-- The frame of an account that is open. -/
structure Frame.Shows (path fileId : String) (f : Frame) (a : Account) : Prop where
  fault : f.fault = (a.recorded path).head?
  name : f.container.name = a.declared.head.name
  position : f.container.position = a.declared.head.declaration.position
  notCaptured : a.isCaptured = false
  record : f.fault = none → a.declared.record fileId = some f.container ∧
    f.visibility = Item.accessAfter f.container.kind.defaultVisibility a.declared.items

theorem Frame.Shows.add {path fileId : String} {f g : Frame} {a : Account} {i : Item}
    (h : f.Shows path fileId a) (hg : f.Gains [i] g)
    (hfault : g.fault = f.fault.or (i.fault? path)) : g.Shows path fileId (a.add i) where
  fault := by rw [hfault, h.fault, Account.head?_recorded_add]
  name := hg.name.trans h.name
  position := by
    obtain ⟨_, rfl, -⟩ := hg
    exact h.position
  notCaptured := h.notCaptured
  record := by
    intro hnone
    rw [hfault, Option.or_eq_none_iff] at hnone
    obtain ⟨hrecord, haccess⟩ := h.record hnone.1
    exact Declared.record_add hg hrecord haccess

/-- The warning about a container that ends without a fault. -/
def Frame.warning? (path : String) (f : Frame) : Option String :=
  if f.fault = none then bareWarning? path f.container else none

theorem Builder.complete_eq_settled (b : Builder) (f : Frame) :
    b.complete f = { b with
      slots := if f.fault = none then b.slots.set f.slot (some f.container) else b.slots
      faults := b.faults ++ f.fault.toList
      warnings := b.warnings ++ (f.warning? b.path).toList } := by
  unfold complete Frame.warning? bareWarning?
  cases f.fault with
  | some fault => simp [report]
  | none => cases hline : f.container.generatedBodyLine <;> simp [warn, warningAt, hline]

namespace Frame.Shows

variable {path fileId : String} {f : Frame} {a : Account}

theorem faults_close (h : f.Shows path fileId a) : a.close.faults path = f.fault.toList := by
  rw [Account.faults, show a.close.isCaptured = false from h.notCaptured, h.fault]
  exact List.append_nil _

theorem container?_close (h : f.Shows path fileId a) :
    a.close.container? fileId = if f.fault = none then some f.container else none := by
  have hfaults := h.faults_close
  cases hfault : f.fault with
  | some fault =>
    rw [hfault] at hfaults
    exact Account.container?_eq_none path (by rw [hfaults]; simp)
  | none =>
    rw [hfault] at hfaults
    exact (Account.container?_of_faults_eq_nil hfaults).trans (h.record hfault).1

theorem warning?_close (h : f.Shows path fileId a) :
    a.close.warning? path fileId = f.warning? path := by
  rw [Account.warning?, show a.close.isCaptured = false from h.notCaptured, h.container?_close,
    Frame.warning?]
  cases f.fault <;> rfl

end Frame.Shows

/-- What a builder has is told by accounts and by what is loose. -/
structure Books (path fileId : String) (accounts : List Account) (loose : List Item)
    (b : Builder) : Prop where
  path_eq : b.path = path
  fileId_eq : b.fileId = fileId
  opens : Opens accounts (b.frames.map (·.slot))
  shows : ∀ f ∈ b.frames, ∀ a, accounts[f.slot]? = some a → f.Shows path fileId a
  slots : b.slots = accounts.map (·.container? fileId)
  names : Builder.Taken (accounts.map (·.declared)) b.names
  faults : b.faults.Perm
    (accounts.flatMap (·.settled path) ++ loose.filterMap (Item.looseFault? path))
  warnings : b.warnings.Perm
    ((accounts.flatMap fun a => (a.warning? path fileId).toList) ++
      loose.filterMap (Item.looseWarning? path))

namespace Books

variable {path fileId : String} {accounts : List Account} {loose : List Item} {b : Builder}

theorem start (path fileId : String) : Books path fileId [] [] { path, fileId } :=
  ⟨rfl, rfl, ⟨List.nodup_nil, by simp, by simp⟩, by simp, rfl, by simp [Builder.Taken], .nil, .nil⟩

/-- The account of the innermost frame. -/
theorem innermost (h : Books path fileId accounts loose b) {f : Frame} {outer : List Frame}
    (hf : b.frames = f :: outer) :
    ∃ a, accounts[f.slot]? = some a ∧ a.isOpen = true ∧ f.Shows path fileId a := by
  have hmem : f ∈ b.frames := hf ▸ List.mem_cons_self
  obtain ⟨a, ha, hopen⟩ := h.opens.isOpen f.slot (List.mem_map_of_mem hmem)
  exact ⟨a, ha, hopen, h.shows f hmem a ha⟩

theorem ne_innermost (h : Books path fileId accounts loose b) {f : Frame} {outer : List Frame}
    (hf : b.frames = f :: outer) : ∀ k ∈ outer, f.slot ≠ k.slot := by
  have hnodup := h.opens.nodup
  rw [hf, List.map_cons, List.nodup_cons] at hnodup
  intro k hk he
  exact hnodup.1 (he ▸ List.mem_map_of_mem hk)

/-- The other open accounts stay as they are. -/
theorem shows_modify (h : Books path fileId accounts loose b) {f : Frame} {outer : List Frame}
    (hf : b.frames = f :: outer) (u : Account → Account) :
    ∀ k ∈ outer, ∀ a, (accounts.modify f.slot u)[k.slot]? = some a → k.Shows path fileId a := by
  intro k hk a ha
  rw [List.getElem?_modify_ne _ _ (h.ne_innermost hf k hk)] at ha
  exact h.shows k (hf ▸ List.mem_cons_of_mem _ hk) a ha

/-- An account keeps the name that its container has taken. -/
theorem names_modify (h : Books path fileId accounts loose b) {u : Account → Account}
    (hu : ∀ a, (u a).declared.head = a.declared.head ∧
      (u a).declared.qualifiedName = a.declared.qualifiedName) (k : Nat) :
    Builder.Taken ((accounts.modify k u).map (·.declared)) b.names := by
  have hkeys : ∀ (xs : List Account) (q : String),
      (∃ d ∈ xs.map (·.declared), d.head.parses = true ∧ d.qualifiedName = q) ↔
        (true, q) ∈ xs.map fun a => (a.declared.head.parses, a.declared.qualifiedName) := by
    simp
  intro q
  rw [h.names q, hkeys, hkeys, map_modify]
  intro a _
  rw [(hu a).1, (hu a).2]

/-- An item of the innermost container is added to its account. -/
theorem add (h : Books path fileId accounts loose b) {f g : Frame} {outer : List Frame}
    (hf : b.frames = f :: outer) {i : Item} (hg : f.Gains [i] g)
    (hfault : g.fault = f.fault.or (i.fault? path)) :
    Books path fileId (accounts.modify f.slot (·.add i)) loose { b with frames := g :: outer } := by
  obtain ⟨a, ha, hopen, hshows⟩ := h.innermost hf
  -- Nothing is settled as long as the account is open.
  have hsame {α : Type} (p : Account → α) (hp : p (a.add i) = p a) :
      (accounts.modify f.slot (·.add i)).map p = accounts.map p :=
    map_modify fun x hx => Option.some.inj (ha.symm.trans hx) ▸ hp
  have hcontainer : (a.add i).container? fileId = a.container? fileId := by
    rw [Account.container?_of_isOpen hopen hshows.notCaptured]
    exact Account.container?_of_isOpen hopen hshows.notCaptured
  have hsettled : (a.add i).settled path = a.settled path := by
    rw [Account.settled, Account.settled, if_pos hopen]
    exact if_pos hopen
  have hwarning : (a.add i).warning? path fileId = a.warning? path fileId := by
    rw [Account.warning?, Account.warning?, hcontainer]
    rfl
  refine ⟨h.path_eq, h.fileId_eq, ?_, fun k hk => ?_, ?_,
    h.names_modify (u := (·.add i)) (fun _ => ⟨rfl, rfl⟩) f.slot, ?_, ?_⟩
  · have hopens := h.opens.modify (u := (·.add i)) (fun _ => rfl) f.slot
    rw [hf] at hopens
    simpa [hg.slot] using hopens
  · rcases List.mem_cons.1 hk with rfl | hk
    · intro x hx
      rw [hg.slot, List.getElem?_modify_eq, ha] at hx
      exact Option.some.inj hx ▸ hshows.add hg hfault
    · exact h.shows_modify hf _ k hk
  · rw [h.slots, hsame _ hcontainer]
  · rw [List.flatMap_def, hsame _ hsettled]
    exact h.faults
  · rw [List.flatMap_def, hsame _ (congrArg Option.toList hwarning)]
    exact h.warnings

/-- The account of the innermost container is settled at the end of its body. -/
theorem close (h : Books path fileId accounts loose b) {f : Frame} {outer : List Frame}
    (hf : b.frames = f :: outer) :
    Books path fileId (accounts.modify f.slot Account.close) loose
      ({ b with frames := outer }.complete f) := by
  obtain ⟨a, ha, hopen, hshows⟩ := h.innermost hf
  obtain ⟨pre, post, hsplit, hlen, hmodify⟩ := exists_split_modify ha Account.close
  have hnone : a.container? fileId = none :=
    Account.container?_of_isOpen hopen hshows.notCaptured
  have hsettled : a.settled path = [] := by rw [Account.settled, if_pos hopen]
  have hsettled' : a.close.settled path = f.fault.toList := hshows.faults_close
  have hslots := h.slots
  have hfaults := h.faults
  have hwarnings := h.warnings
  rw [hsplit] at hslots hfaults hwarnings
  rw [Builder.complete_eq_settled]
  refine ⟨h.path_eq, h.fileId_eq, ?_, h.shows_modify hf Account.close, ?_,
    h.names_modify (u := Account.close) (fun _ => ⟨rfl, rfl⟩) f.slot, ?_, ?_⟩
  · have hopens := h.opens
    rw [hf] at hopens
    exact hopens.close
  · rw [hmodify]
    simp only [List.map_append, List.map_cons, hnone, hshows.container?_close] at hslots ⊢
    split
    · rw [hslots, ← hlen, List.set_append_right _ _ (by simp)]
      simp
    · exact hslots
  · simp only [hmodify, List.flatMap_append, List.flatMap_cons, hsettled, hsettled',
      List.nil_append, List.append_assoc] at hfaults ⊢
    exact perm_insert hfaults f.fault.toList
  · have hwarning : Frame.warning? b.path f = a.close.warning? path fileId := by
      rw [hshows.warning?_close, h.path_eq]
    simp only [hmodify, List.flatMap_append, List.flatMap_cons,
      Account.warning?_eq_none hnone, ← hwarning, Option.toList_none, List.nil_append,
      List.append_assoc] at hwarnings ⊢
    exact perm_insert hwarnings _

/-- An item outside of all containers is loose. -/
theorem addLoose (h : Books path fileId accounts loose b) (hf : b.frames = []) (i : Item) :
    Books path fileId accounts (loose ++ [i]) (b.take i.event) := by
  rw [Builder.take_item_loose hf]
  refine ⟨h.path_eq, h.fileId_eq, h.opens, h.shows, h.slots, h.names, ?_, ?_⟩
  · rw [List.filterMap_append, ← List.append_assoc, filterMap_singleton, h.path_eq]
    exact h.faults.append_right _
  · rw [List.filterMap_append, ← List.append_assoc, filterMap_singleton, h.path_eq]
    exact h.warnings.append_right _

/-- A further account, with what it adds to the builder. -/
theorem push (h : Books path fileId accounts loose b) {a : Account} {b' : Builder}
    (hpath : b'.path = b.path) (hfile : b'.fileId = b.fileId)
    (hframes : b'.frames.map (·.slot) =
      if a.isOpen then accounts.length :: b.frames.map (·.slot) else b.frames.map (·.slot))
    (hshows : ∀ f ∈ b'.frames, f ∈ b.frames ∨
      (f.slot = accounts.length ∧ f.Shows path fileId a))
    (hslots : b'.slots = b.slots ++ [a.container? fileId])
    (hnames : Builder.Taken (accounts.map (·.declared) ++ [a.declared]) b'.names)
    (hfaults : b'.faults = b.faults ++ a.settled path)
    (hwarnings : b'.warnings = b.warnings) (hwarning : a.warning? path fileId = none) :
    Books path fileId (accounts ++ [a]) loose b' := by
  refine ⟨hpath.trans h.path_eq, hfile.trans h.fileId_eq, ?_, fun f hf x hx => ?_, ?_, ?_, ?_, ?_⟩
  · rw [hframes]
    exact h.opens.push a
  · rcases hshows f hf with hold | ⟨hslot, hnew⟩
    · have hlt := h.opens.lt f.slot (List.mem_map_of_mem hold)
      rw [List.getElem?_append_left hlt] at hx
      exact h.shows f hold x hx
    · rw [hslot, List.getElem?_concat_length] at hx
      exact Option.some.inj hx ▸ hnew
  · rw [hslots, h.slots, List.map_append]
    rfl
  · rw [List.map_append]
    exact hnames
  · rw [hfaults, List.flatMap_append, List.append_assoc]
    simpa using perm_insert h.faults (a.settled path)
  · rw [hwarnings]
    simpa [hwarning] using h.warnings

/-- A further account that is closed, with what it adds to the builder. -/
theorem pushClosed (h : Books path fileId accounts loose b) {a : Account} {b' : Builder}
    (henum : a.isCaptured = true) (hopen : a.isOpen = false) (hpath : b'.path = b.path)
    (hfile : b'.fileId = b.fileId) (hframes : b'.frames = b.frames)
    (hslots : b'.slots = b.slots ++ [a.container? fileId])
    (hnames : Builder.Taken (accounts.map (·.declared) ++ [a.declared]) b'.names)
    (hfaults : b'.faults = b.faults ++ a.faults path) (hwarnings : b'.warnings = b.warnings) :
    Books path fileId (accounts ++ [a]) loose b' := by
  have hsettled : a.settled path = a.faults path := by
    rw [Account.settled, hopen]
    rfl
  refine h.push hpath hfile ?_ (fun f hf => .inl (hframes ▸ hf)) hslots hnames ?_ hwarnings ?_
  · rw [hframes, hopen]
    rfl
  · rw [hsettled, hfaults]
  · rw [Account.warning?, if_pos henum]

/-- Depths and namespaces are not in the books. -/
theorem move (h : Books path fileId accounts loose b) (depth : Nat)
    (namespaces : List OpenNamespace) :
    Books path fileId accounts loose { b with depth, namespaces } :=
  ⟨h.path_eq, h.fileId_eq, h.opens, h.shows, h.slots, h.names, h.faults, h.warnings⟩

theorem closeNamespace (h : Books path fileId accounts loose b) :
    Books path fileId accounts loose b.closeNamespace := by
  unfold Builder.closeNamespace
  split
  · split
    · exact h.move b.depth _
    · exact h
  · exact h

end Books

end HeaderReflection
