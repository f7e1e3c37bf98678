import HeaderReflection.Proofs.Container.Symbols
import HeaderReflection.Proofs.Declaration.HeaderNames
import HeaderReflection.Proofs.Scope.Kept

/-!
# Names of containers and of their scopes

A container goes by the name in its header, and its scope has the names that the heads of the open
namespaces give and those in the headers of the open containers. Where a header does not parse, a
word that is no identifier stands for its name, and the head of a namespace gives whatever stands
between its scope marks. So a container can be named in generated code just if none of the scopes
around it is of that kind.

* `Scopes.openings`: the containers of a file in order, each with the scopes that it is opened in.
* `Builder.keeps_named`: every container has the name and the scope that its opening gives it.
* `nodup_qualifiedNames`: the qualified names of the containers of a file are all different.
* `named_iff`: when a container and its scope are named by identifiers, and that they then make up a
  qualified name and a symbol.
* `named_inline`: a namespace that is inline in a nested one gives a scope with no such name.
-/

namespace HeaderReflection

/-- The container that an event opens. -/
def Event.head? : Event → Option Head
  | .container position attributes declaration _ => some ⟨position, attributes, declaration⟩
  | _ => none

/-- The header parses, and the name that it declares is no string. -/
def Head.IsNamed (h : Head) : Prop :=
  ∃ header, Header.parse h.declaration.text = .ok header ∧
    Token.doubleQuote ∉ header.name.toList

theorem Head.isIdentifier_name_iff (h : Head) : IsIdentifier h.name ↔ h.IsNamed := by
  unfold name IsNamed
  cases hp : Header.parse h.declaration.text with
  | error cause => simpa using (by decide : ¬IsIdentifier "<anonymous>")
  | ok header => simpa using isIdentifier_iff_of_parse hp

namespace Scopes

/-- The containers that events open, each with the scopes that it is opened in. -/
def openings : Scopes → List (Except ScanFault Event) → List (Head × Scopes)
  | _, [] => []
  | s, .error _ :: es => openings s es
  | s, .ok e :: es => e.head?.toList.map (·, s) ++ openings (s.after e) es

/-- The containers that are open, outermost first, given those that have been opened. -/
def enclosing (opened : List (Head × Scopes)) (s : Scopes) : List Head :=
  s.frames.reverse.filterMap fun f => opened[f.1]?.map Prod.fst

/-- The names of the open namespaces and containers, outermost first. -/
def names (opened : List (Head × Scopes)) (s : Scopes) : List String :=
  s.namespaces.reverse.flatMap (·.names) ++ (s.enclosing opened).map Head.name

end Scopes

/-- The containers that are opened in a file, each with the scopes that it is opened in. -/
def openedIn (v : Vocabulary) (source : String) : List (Head × Scopes) :=
  Scopes.openings ⟨0, [], [], 0⟩ (Markup.scan v source)

/-- The container has the name and the scope of the one that was opened in its place. -/
def NamedAt (opened : List (Head × Scopes)) (i : Nat) (c : Container) : Prop :=
  ∃ head s, opened[i]? = some (head, s) ∧ c.name = head.name ∧ c.scope = s.names opened

namespace Builder

variable {b : Builder} {opened : List (Head × Scopes)}

/-- The scope of what is opened next has the names of what is open. -/
theorem scope_eq_names (h : ∀ f ∈ b.frames, NamedAt opened f.slot f.container) :
    b.scope = b.scopes.names opened := by
  have hframes : ∀ fs : List Frame, (∀ f ∈ fs, NamedAt opened f.slot f.container) →
      fs.map (·.container.name) =
        (fs.filterMap fun f => opened[f.slot]?.map Prod.fst).map Head.name := by
    intro fs hfs
    induction fs with
    | nil => rfl
    | cons f fs ih =>
      obtain ⟨head, s, hopened, hname, -⟩ := hfs f List.mem_cons_self
      rw [List.map_cons, ih fun g hg => hfs g (List.mem_cons_of_mem _ hg), hname]
      simp [hopened]
  unfold scope Scopes.names Scopes.enclosing scopes
  rw [hframes _ fun f hf => h f (List.mem_reverse.1 hf)]
  simp only [← List.map_reverse, List.filterMap_map]
  rfl

theorem slots_scopes (b : Builder) : b.scopes.slots = b.slots.length := rfl

/-- Every container has the name and the scope that its opening gives it. -/
theorem keeps_named (past : List (Head × Scopes)) {es : List (Except ScanFault Event)}
    (hlen : past.length = b.slots.length) (hopened : opened = past ++ b.scopes.openings es)
    (h : Keeps (fun f => NamedAt opened f.slot f.container) (NamedAt opened) b) :
    Keeps (fun f => NamedAt opened f.slot f.container) (NamedAt opened) (b.takeAll es) := by
  induction es generalizing b past with
  | nil => exact h
  | cons e es ih =>
    have hnext : Keeps (fun f => NamedAt opened f.slot f.container) (NamedAt opened)
        (b.take e) := by
      refine h.take e (fun i _ f g outer _ hgains hf => ?_) (fun position a d body he => ?_)
        fun f hf _ => hf
      · obtain ⟨_, rfl, -⟩ := hgains
        exact hf
      · -- What is opened now stands behind all that was opened before.
        subst he
        have hplace : opened[b.slots.length]? = some (⟨position, a, d⟩, b.scopes) := by
          rw [hopened, ← hlen, List.getElem?_append_right (Nat.le_refl _), Nat.sub_self]
          rfl
        have hnamed : NamedAt opened b.slots.length (b.containerOf a d).1 :=
          ⟨_, _, hplace, containerOf_name ⟨position, a, d⟩,
            (containerOf_scope a d).trans (scope_eq_names h.frames)⟩
        refine ⟨fun f hslot _ hc => ?_, fun c enumerators hc => ?_⟩
        · rw [hc] at hnamed
          exact hslot ▸ hnamed
        · rw [hc] at hnamed
          exact hnamed
    have hscopes := b.scopes_take e
    have hslots := congrArg Scopes.slots hscopes
    cases e with
    | error f => exact ih past (hlen.trans hslots.symm) (by rw [hscopes]; exact hopened) hnext
    | ok e =>
      refine ih (past ++ e.head?.toList.map (·, b.scopes)) ?_ ?_ hnext
      · rw [List.length_append, hlen, ← slots_scopes, ← slots_scopes, hslots]
        cases e with
        | container position a d body =>
          simp only [Scopes.after]
          split <;> rfl
        | closeBrace position => exact (slots_closeScope _).symm
        | _ => rfl
      · rw [hscopes, hopened, Scopes.openings, List.append_assoc]

end Builder

/-! ## Names that are taken -/

/-- The names that are taken are those that are noted, under the slots of the containers that took
them; all that is open or complete without a fault is among these. -/
structure Builder.Noted (notes : List (Nat × String)) (b : Builder) : Prop where
  names : b.names = notes.map Prod.snd
  nodup : b.names.Nodup
  keeps : b.Keeps (fun f => f.fault = none → (f.slot, f.container.qualifiedName) ∈ notes)
    fun i c => (i, c.qualifiedName) ∈ notes

namespace Builder

variable {b : Builder}

/-- A container that is opened without a fault has a fresh name. -/
theorem qualifiedName_notMem_names {a d : Excerpt} {c : Container}
    (h : b.containerOf a d = (c, none)) : c.qualifiedName ∉ b.names := by
  unfold containerOf at h
  cases hh : Header.parse d.text with
  | error _ => simp [hh] at h
  | ok header =>
    cases ha : parseAttributes b.path a with
    | error _ => simp [hh, ha] at h
    | ok attributes =>
      simp only [hh, ha] at h
      split at h
      · simp at h
      · rename_i hfresh
        obtain ⟨rfl, -⟩ := Prod.mk.inj h
        simpa using hfresh

namespace Noted

variable {notes : List (Nat × String)}

theorem take (h : b.Noted notes) (e : Except ScanFault Event) :
    ∃ more, (b.take e).Noted (notes ++ more) := by
  have hnames := (b.fileId_names_take e).2
  refine ⟨(b.taken? e).toList.map (b.slots.length, ·), ?_, ?_, ?_⟩
  · rw [hnames, h.names, List.map_append, List.map_map, Function.comp_def, List.map_id']
  · rw [hnames]
    refine h.nodup.append (by cases b.taken? e <;> simp) fun q hq htaken => ?_
    cases e with
    | error _ => cases htaken
    | ok e =>
      cases e with
      | container position a d body =>
        rcases hc : b.containerOf a d with ⟨c, _ | fault⟩
        · obtain rfl : q = c.qualifiedName := by simpa [taken?, hc] using htaken
          exact qualifiedName_notMem_names hc hq
        · simp [taken?, hc] at htaken
      | _ => cases htaken
  · refine (h.keeps.imp (fun f _ hf hfault => List.mem_append_left _ (hf hfault))
      fun i c _ hc => List.mem_append_left _ hc).take e ?_ ?_ fun f hf => hf
    · rintro i _ f g outer _ ⟨fault, rfl, hfault⟩ hf hg
      exact hf (hfault.1 hg).1
    · rintro position a d body rfl
      refine ⟨fun f hslot _ hc hfault => ?_, fun c enumerators hc => ?_⟩
      · rw [hfault] at hc
        exact List.mem_append_right _ (by simp [taken?, hc, hslot])
      · exact List.mem_append_right _ (by simp [taken?, hc]; rfl)

theorem takeAll (h : b.Noted notes) (es : List (Except ScanFault Event)) :
    ∃ more, (b.takeAll es).Noted (notes ++ more) := by
  induction es generalizing b notes with
  | nil => exact ⟨[], by rwa [List.append_nil]⟩
  | cons e es ih =>
    obtain ⟨first, hfirst⟩ := h.take e
    obtain ⟨others, hall⟩ := ih hfirst
    exact ⟨first ++ others, by rwa [← List.append_assoc]⟩

end Noted

end Builder

/-- No two containers of a file have the same qualified name. -/
theorem nodup_qualifiedNames (v : Vocabulary) (path fileId source : String) :
    ((FileModel.ofSource v path fileId source).containers.map (·.qualifiedName)).Nodup := by
  have hstart : Builder.Noted [] { path, fileId } := ⟨rfl, List.nodup_nil, .start path fileId⟩
  obtain ⟨notes, hnoted⟩ := hstart.takeAll (Markup.scan v source)
  have hnotes : (notes.map Prod.snd).Nodup := hnoted.names ▸ hnoted.nodup
  rw [← List.filterMap_eq_map]
  refine nodup_of_notes hnotes fun i c hc n hn => ?_
  rw [recorded_eq] at hc
  exact Option.some.inj hn ▸ hnoted.keeps.complete i c hc

/-! ## Identifiers -/

/-- The open scopes are named by identifiers if the heads of the namespaces give no others, and the
headers of the containers declare them. -/
theorem Scopes.isIdentifier_names_iff (opened : List (Head × Scopes)) (s : Scopes) :
    (∀ n ∈ s.names opened, IsIdentifier n) ↔
      (∀ ns ∈ s.namespaces, ∀ n ∈ ns.names, IsIdentifier n) ∧
        ∀ h ∈ s.enclosing opened, h.IsNamed := by
  unfold names
  rw [List.forall_mem_append, List.forall_mem_map]
  refine and_congr ?_ (forall₂_congr fun h _ => h.isIdentifier_name_iff)
  simp only [List.mem_flatMap, List.mem_reverse]
  exact ⟨fun h ns hns n hn => h n ⟨ns, hns, hn⟩, fun h n ⟨ns, hns, hn⟩ => h ns hns n hn⟩

/-- **A container and its scope are named by identifiers just if the heads of the namespaces around
it give only such names, and its own header and those of the containers around it parse and declare
no string for a name.** They then make up a qualified name, and a symbol that is an identifier. -/
theorem named_iff (v : Vocabulary) (path fileId source : String) :
    (FileModel.ofSource v path fileId source).containers =
      (recorded v path fileId source).filterMap id ∧
    ∀ (i : Nat) (c : Container), (recorded v path fileId source)[i]? = some (some c) →
      ∃ (head : Head) (s : Scopes),
        (openedIn v source)[i]? = some (head, s) ∧
        c.name = head.name ∧
        c.scope = s.names (openedIn v source) ∧
        ((∀ n ∈ c.names, IsIdentifier n) ↔
          (∀ ns ∈ s.namespaces, ∀ n ∈ ns.names, IsIdentifier n) ∧
            (∀ h ∈ s.enclosing (openedIn v source), h.IsNamed) ∧
              head.IsNamed) ∧
        ((∀ n ∈ c.names, IsIdentifier n) →
          Declaration.tokens c.qualifiedName = c.names.intersperse "::" ∧
            IsIdentifier c.symbol) := by
  refine ⟨by rw [ofSource_eq]; rfl, fun i c hc => ?_⟩
  have hkept : Builder.Keeps (fun f => NamedAt (openedIn v source) f.slot f.container)
      (NamedAt (openedIn v source)) (Builder.takeAll { path, fileId } (Markup.scan v source)) :=
    Builder.keeps_named [] rfl rfl (Builder.Keeps.start path fileId)
  rw [recorded_eq] at hc
  obtain ⟨head, s, hopened, hname, hscope⟩ := hkept.complete i c hc
  refine ⟨head, s, hopened, hname, hscope, ?_, fun h =>
    ⟨Container.tokens_qualifiedName h, Container.isIdentifier_symbol h⟩⟩
  rw [Container.names, hscope, hname, List.forall_mem_append, Scopes.isIdentifier_names_iff,
    List.forall_mem_singleton, head.isIdentifier_name_iff, and_assoc]

theorem named_nested :
    ∃ c, (recorded {} "a.h" "a.h"
        "namespace game { STRUCT() struct S { GENERATED_BODY() }; }")[0]? = some (some c) ∧
      Declaration.tokens c.qualifiedName = c.names.intersperse "::" ∧ IsIdentifier c.symbol := by
  have hsome : ∃ c ∈ (recorded {} "a.h" "a.h"
      "namespace game { STRUCT() struct S { GENERATED_BODY() }; }")[0]?.join,
      ∀ n ∈ c.names, IsIdentifier n := by
    decide +kernel
  obtain ⟨c, hc, hnames⟩ := hsome
  have hslot := Option.join_eq_some_iff.1 hc
  obtain ⟨-, -, -, -, -, -, hnamed⟩ := (named_iff {} "a.h" "a.h" _).2 0 c hslot
  exact ⟨c, hslot, hnamed hnames⟩

/-- A namespace that is inline in a nested one leaves the two words in one name. -/
theorem named_inline :
    ¬∀ (v : Vocabulary) (path fileId source : String),
      ∀ c ∈ (FileModel.ofSource v path fileId source).containers, ∀ n ∈ c.names, IsIdentifier n := by
  intro h
  have hinline : ∃ c ∈ (FileModel.ofSource {} "a.h" "a.h"
      "namespace game::inline v1 { STRUCT() struct S { GENERATED_BODY() }; }").containers,
      ¬∀ n ∈ c.names, IsIdentifier n := by
    decide +kernel
  obtain ⟨c, hc, hnames⟩ := hinline
  exact hnames (h _ _ _ _ c hc)

end HeaderReflection
