import HeaderReflection.Proofs.Artifact.BodyMacros
import HeaderReflection.Proofs.Scope.Bodies

/-!
# Access behind generated-body markers

A property is recorded with the access that the last label in front of it sets. A generated-body
marker stands for labels too: once it is expanded, the access behind it is the one that the body
starts with, whatever it was in front of it. So the recorded access is the real one where it is that
one anyway, or where a label stands behind each marker.

* `filterMap_expansion`: the labels in the expansion of a marker.
* `labelAccess_eq_iff`: when the labels of a body alone tell the access behind it.
* `visibility_real_iff`: when the recorded visibility of a property is its real access.
* `visibility_behind_marker`: a property behind a marker in a public section.
-/

namespace HeaderReflection

/-! ## Labels in expansions -/

/-- The access that a line sets, if it is a label. -/
def labelOf? (line : String) : Option Visibility :=
  [.public, .protected, .private].find? fun v => v.word ++ ":" = line

theorem labelOf?_word (v : Visibility) : labelOf? (v.word ++ ":") = some v := by
  cases v <;> decide

/-- A line that starts with a blank is no label. -/
theorem labelOf?_of_blank {line : String} (h : line.toList.head? = some ' ') :
    labelOf? line = none := by
  refine List.find?_eq_none.2 fun v _ hv => ?_
  rw [← of_decide_eq_true hv] at h
  cases v <;> exact absurd h (by decide)

/-- The labels in the expansion of a marker: the accessors are public, and what follows has the
access that the body starts with. -/
theorem filterMap_expansion (c : Container) :
    (Tables.expansion c).filterMap labelOf? = [.public, c.kind.defaultVisibility] := by
  have hblank : ∀ {s t : String}, s.toList.head? = some ' ' → labelOf? (s ++ t) = none := by
    intro s t hs
    refine labelOf?_of_blank ?_
    rw [String.toList_append, List.head?_append, hs]
    rfl
  unfold Tables.expansion
  rw [List.filterMap_cons, List.filterMap_cons, List.filterMap_cons, List.filterMap_cons,
    List.filterMap_cons, List.filterMap_nil, labelOf?_word]
  simp only [String.append_assoc]
  rw [hblank (by decide), hblank (by decide), hblank (by decide)]
  rfl

/-! ## Access in bodies -/

namespace BodyItem

/-- An item that is a marker directly in the body. -/
def IsMarker (x : BodyItem) : Prop :=
  x.direct = true ∧ x.item.bodyLine?.isSome = true

theorem IsMarker.label?_eq_none {x : BodyItem} (h : x.IsMarker) : x.item.label? = none := by
  obtain ⟨i, direct⟩ := x
  cases i with
  | label position v => exact absurd h.2 (by simp [Item.bodyLine?])
  | _ => rfl

/-- The labels of an item, where a marker directly in the body stands for the given ones. -/
def labels (expansion : List Visibility) (x : BodyItem) : List Visibility :=
  match x.item with
  | .label _ v => [v]
  | .generatedBody _ _ => if x.direct then expansion else []
  | _ => []

end BodyItem

/-- The access behind a part of a body, by the labels in it alone. -/
def labelAccess (start : Visibility) (body : List BodyItem) : Visibility :=
  Item.accessAfter start (body.map (·.item))

/-- The access behind a part of a body whose markers are expanded: that of the last label. -/
def realAccess (expansion : List Visibility) (start : Visibility) (body : List BodyItem) :
    Visibility :=
  (body.flatMap (·.labels expansion)).getLast?.getD start

/-- A label stands behind each marker. -/
def Relabelled (body : List BodyItem) : Prop :=
  ∀ before x behind, body = before ++ x :: behind → x.IsMarker →
    ∃ y ∈ behind, y.item.label?.isSome = true

theorem relabelled_concat_iff {body : List BodyItem} {x : BodyItem} :
    Relabelled (body ++ [x]) ↔
      x.item.label?.isSome = true ∨ ¬x.IsMarker ∧ Relabelled body := by
  constructor
  · intro h
    by_cases hlabel : x.item.label?.isSome = true
    · exact .inl hlabel
    · refine .inr ⟨fun hmarker => ?_, fun before y behind hbody hmarker => ?_⟩
      · obtain ⟨_, hy, -⟩ := h body x [] rfl hmarker
        cases hy
      · obtain ⟨z, hz, hzlabel⟩ := h before y (behind ++ [x]) (by simp [hbody]) hmarker
        rcases List.mem_append.1 hz with hz | hz
        · exact ⟨z, hz, hzlabel⟩
        · exact absurd (List.mem_singleton.1 hz ▸ hzlabel) hlabel
  · intro h before y behind hbody hmarker
    rcases List.eq_nil_or_concat behind with rfl | ⟨front, z, rfl⟩
    · -- The last item is no label if it is a marker.
      obtain ⟨-, hlast⟩ := List.append_inj' hbody rfl
      obtain rfl := List.singleton_injective hlast
      rw [hmarker.label?_eq_none] at h
      exact ((h.resolve_left (by simp)).1 hmarker).elim
    · rw [List.concat_eq_append] at hbody ⊢
      rw [← List.cons_append, ← List.append_assoc] at hbody
      obtain ⟨hfront, hlast⟩ := List.append_inj' hbody rfl
      obtain rfl := List.singleton_injective hlast
      rcases h with hlabel | ⟨-, hbody⟩
      · exact ⟨x, by simp, hlabel⟩
      · obtain ⟨w, hw, hlabel⟩ := hbody before y front hfront hmarker
        exact ⟨w, List.mem_append_left _ hw, hlabel⟩

theorem realAccess_concat (expansion : List Visibility) (start : Visibility)
    (body : List BodyItem) (x : BodyItem) :
    realAccess expansion start (body ++ [x]) =
      (x.labels expansion).getLast?.getD (realAccess expansion start body) := by
  unfold realAccess
  rw [List.flatMap_append, List.flatMap_singleton, List.getLast?_append]
  cases (x.labels expansion).getLast? <;> rfl

theorem labelAccess_concat (start : Visibility) (body : List BodyItem) (x : BodyItem) :
    labelAccess start (body ++ [x]) = x.item.label?.getD (labelAccess start body) := by
  unfold labelAccess
  rw [List.map_append, List.map_singleton, Item.accessAfter_append, Item.accessAfter_cons]
  rfl

/-- The labels of a body alone tell the access behind it just if this is the one that the body
starts with, or if a label stands behind each marker. -/
theorem labelAccess_eq_iff {expansion : List Visibility} {start : Visibility}
    (hlast : expansion.getLast? = some start) (body : List BodyItem) :
    labelAccess start body = realAccess expansion start body ↔
      labelAccess start body = start ∨ Relabelled body := by
  induction body using List.reverseRecOn with
  | nil => exact iff_of_true rfl (.inl rfl)
  | append_singleton body x ih =>
    rw [labelAccess_concat, realAccess_concat, relabelled_concat_iff]
    obtain ⟨i, direct⟩ := x
    cases i with
    | label position v => simp [BodyItem.labels, Item.label?]
    | generatedBody position attributes =>
      cases direct with
      | true => simp [BodyItem.labels, BodyItem.IsMarker, Item.label?, Item.bodyLine?, hlast]
      | false => simpa [BodyItem.labels, BodyItem.IsMarker, Item.label?] using ih
    | property | function | fault =>
      simpa [BodyItem.labels, BodyItem.IsMarker, Item.label?, Item.bodyLine?] using ih

/-! ## Recorded visibilities -/

/-- A property that is well formed is declared, with the access where it stands. -/
theorem Item.exists_property? {i : Item} (h : i.isSound = true) (hi : i.member? = some .property)
    (visibility : Visibility) :
    ∃ p, i.property? visibility = some p ∧ p.visibility = visibility := by
  have hlength := length_property? h visibility
  rw [hi] at hlength
  cases hp : i.property? visibility with
  | none => simp [hp] at hlength
  | some p =>
    refine ⟨p, rfl, ?_⟩
    cases i with
    | property position a d =>
      simp only [property?] at hp
      split at hp
      · split at hp
        · cases hp
        · obtain rfl := Option.some.inj hp
          rfl
      · cases hp
    | _ => cases hp

/-- The number of properties that a part of a body declares. -/
def propertyCount (body : List BodyItem) : Nat :=
  body.countP fun x => x.item.member? = some .property

theorem Item.properties_cons (start : Visibility) (i : Item) (items : List Item) :
    properties start (i :: items) =
      (i.property? start).toList ++ properties (i.label?.getD start) items := by
  cases hp : i.property? start <;> simp [properties, accessed, hp]

theorem length_properties {body : List BodyItem} (h : IsSound body) (start : Visibility) :
    (Item.properties start (body.map (·.item))).length = propertyCount body := by
  induction body generalizing start with
  | nil => rfl
  | cons x body ih =>
    have hx := Item.length_property? (h x List.mem_cons_self) start
    have hrest := ih fun y hy => h y (List.mem_cons_of_mem _ hy)
    rw [List.map_cons, Item.properties_cons, List.length_append, hx, hrest]
    unfold propertyCount
    rw [List.countP_cons, Nat.add_comm]
    cases hm : x.item.member? with
    | none => rfl
    | some m => cases m <;> rfl

/-- The property of an item has its place behind those of the items before it. -/
theorem getElem?_properties {body : List BodyItem} (h : IsSound body) {k : Nat} {x : BodyItem}
    (hx : body[k]? = some x) {start : Visibility} {p : Property}
    (hp : x.item.property? (labelAccess start (body.take k)) = some p) :
    (Item.properties start (body.map (·.item)))[propertyCount (body.take k)]? = some p := by
  obtain ⟨hk, rfl⟩ := List.getElem?_eq_some_iff.1 hx
  have hsplit : body = body.take k ++ body[k] :: body.drop (k + 1) := by simp
  have hfront : IsSound (body.take k) := fun y hy => h y (List.mem_of_mem_take hy)
  have hproperties : Item.properties start (body.map (·.item)) =
      Item.properties start ((body.take k).map (·.item)) ++
        p :: Item.properties (body[k].item.label?.getD (labelAccess start (body.take k)))
          ((body.drop (k + 1)).map (·.item)) := by
    conv_lhs => rw [hsplit, List.map_append, List.map_cons, Item.properties_append,
      Item.properties_cons]
    rw [show Item.accessAfter start ((body.take k).map (·.item)) =
      labelAccess start (body.take k) from rfl, hp]
    rfl
  rw [hproperties, ← length_properties hfront start, List.getElem?_append_right (Nat.le_refl _),
    Nat.sub_self]
  rfl

/-- **A property is recorded with the access that the last label in front of it sets. It is the real
one, where markers are expanded, just if it is the one that the body starts with, or if a label
stands behind each marker in front of the property.** -/
theorem visibility_real_iff (v : Vocabulary) (path fileId source : String) {i : Nat} {c : Container}
    (hc : (recorded v path fileId source)[i]? = some (some c)) :
    (∀ options, Tables.bodyMacro options c = c.generatedBodyLine.elim "" fun line =>
      lines ("" :: Tables.title c :: Tables.continued
        (("#define " ++ Tables.bodyMacroName options c.fileId line) :: Tables.expansion c))) ∧
    ∀ (k : Nat) (x : BodyItem), (bodyOf v source i)[k]? = some x →
      x.item.member? = some .property →
      ∃ p, x.item.property? p.visibility = some p ∧
        c.properties[propertyCount ((bodyOf v source i).take k)]? = some p ∧
        p.visibility = labelAccess c.kind.defaultVisibility ((bodyOf v source i).take k) ∧
        (p.visibility = realAccess ((Tables.expansion c).filterMap labelOf?)
            c.kind.defaultVisibility ((bodyOf v source i).take k) ↔
          p.visibility = c.kind.defaultVisibility ∨ Relabelled ((bodyOf v source i).take k)) := by
  refine ⟨fun options => Tables.bodyMacro_eq options c, fun k x hx hmember => ?_⟩
  obtain ⟨hfilled, hsound⟩ := filled_recorded hc
  obtain ⟨p, hp, hvisibility⟩ := Item.exists_property? (hsound x (List.mem_of_getElem? hx)) hmember
    (labelAccess c.kind.defaultVisibility ((bodyOf v source i).take k))
  refine ⟨p, hvisibility ▸ hp, ?_, hvisibility, ?_⟩
  · rw [hfilled.properties]
    exact getElem?_properties hsound hx hp
  · rw [hvisibility, filterMap_expansion]
    exact labelAccess_eq_iff rfl _

/-- A label behind the marker makes the recorded visibility the real one. -/
theorem visibility_real_relabelled :
    ∃ p c x, (recorded {} "a.h" "a.h"
        "CLASS() class A { GENERATED_BODY() public: PROPERTY() int x; };")[0]? = some (some c) ∧
      (bodyOf {} "CLASS() class A { GENERATED_BODY() public: PROPERTY() int x; };" 0)[2]? =
        some x ∧
      x.item.member? = some .property ∧ c.properties[0]? = some p ∧ p.visibility = .public ∧
      Relabelled ((bodyOf {}
        "CLASS() class A { GENERATED_BODY() public: PROPERTY() int x; };" 0).take 2) := by
  have hpublic : ∃ c ∈ (recorded {} "a.h" "a.h"
      "CLASS() class A { GENERATED_BODY() public: PROPERTY() int x; };")[0]?.join,
      c.kind.defaultVisibility = .private ∧
      ∃ x ∈ (bodyOf {} "CLASS() class A { GENERATED_BODY() public: PROPERTY() int x; };" 0)[2]?,
        x.item.member? = some .property ∧
        labelAccess .private ((bodyOf {}
          "CLASS() class A { GENERATED_BODY() public: PROPERTY() int x; };" 0).take 2) = .public ∧
        realAccess [.public, .private] .private ((bodyOf {}
          "CLASS() class A { GENERATED_BODY() public: PROPERTY() int x; };" 0).take 2) = .public ∧
        propertyCount ((bodyOf {}
          "CLASS() class A { GENERATED_BODY() public: PROPERTY() int x; };" 0).take 2) = 0 := by
    decide +kernel
  obtain ⟨c, hc, hkind, x, hx, hmember, hlabel, hreal, hcount⟩ := hpublic
  have hslot := Option.join_eq_some_iff.1 hc
  obtain ⟨-, hproperty⟩ := visibility_real_iff {} "a.h" "a.h" _ hslot
  obtain ⟨p, -, hp, hvisibility, hiff⟩ := hproperty 2 x hx hmember
  rw [hcount] at hp
  rw [hkind, hlabel] at hvisibility
  rw [filterMap_expansion, hkind, hreal, hvisibility] at hiff
  exact ⟨p, c, x, hslot, hx, hmember, hp, hvisibility, (hiff.1 rfl).resolve_left (by decide)⟩

/-- A property behind a marker in a public section is recorded as public, and is not. -/
theorem visibility_behind_marker :
    ¬∀ (v : Vocabulary) (path fileId source : String) (i : Nat) (c : Container),
      (recorded v path fileId source)[i]? = some (some c) → c.generatedBodyLine.isSome = true →
        ∀ (k : Nat) (x : BodyItem), (bodyOf v source i)[k]? = some x → x.direct = true →
          x.item.member? = some .property →
          ∃ p, c.properties[propertyCount ((bodyOf v source i).take k)]? = some p ∧
            p.visibility = realAccess ((Tables.expansion c).filterMap labelOf?)
              c.kind.defaultVisibility ((bodyOf v source i).take k) := by
  intro h
  have hbehind : ∃ c ∈ (recorded {} "a.h" "a.h"
      "CLASS() class A { public: GENERATED_BODY() PROPERTY() int x; };")[0]?.join,
      c.generatedBodyLine.isSome = true ∧
      ∃ x ∈ (bodyOf {} "CLASS() class A { public: GENERATED_BODY() PROPERTY() int x; };" 0)[2]?,
        x.direct = true ∧ x.item.member? = some .property ∧
        ¬∃ p ∈ c.properties[propertyCount ((bodyOf {}
            "CLASS() class A { public: GENERATED_BODY() PROPERTY() int x; };" 0).take 2)]?,
          p.visibility = realAccess ((Tables.expansion c).filterMap labelOf?)
            c.kind.defaultVisibility ((bodyOf {}
              "CLASS() class A { public: GENERATED_BODY() PROPERTY() int x; };" 0).take 2) := by
    decide +kernel
  obtain ⟨c, hc, hmarked, x, hx, hdirect, hmember, hnot⟩ := hbehind
  exact hnot (h {} "a.h" "a.h" _ 0 c (Option.join_eq_some_iff.1 hc) hmarked 2 x hx hdirect hmember)

end HeaderReflection
