import HeaderReflection.Proofs.Artifact.Access
import HeaderReflection.Proofs.Artifact.Indices
import HeaderReflection.Proofs.Declaration.Fixed

/-!
# What the set accessor assigns to

The set accessor is to leave alone what cannot be assigned to: constants, references and arrays. It
goes by the decorations of a property's type, and so by what the type reader hears of its
declaration; the members that are overlooked there are assigned to.

* `isAssignable_iff`: the types that the set accessor assigns to.
* `set_cases_iff`: when the set accessor has a case for just the members that it should.
* `const_pointer_assigned`: a constant pointer that is assigned to.
-/

namespace HeaderReflection

open Declaration
open Tables (isAssignable isReachable isCase setSwitch)

/-- The text of a property's declaration. -/
def Item.propertyText? : Item → Option String
  | property _ _ declaration => some declaration.text
  | _ => none

theorem Item.member?_of_propertyText? {i : Item} {text : String}
    (h : i.propertyText? = some text) : i.member? = some .property := by
  cases i with
  | property => rfl
  | _ => cases h

/-- A property has the type and the name that its declaration gives it. -/
theorem Item.parse_of_property? {i : Item} {text : String} {visibility : Visibility} {p : Property}
    (htext : i.propertyText? = some text) (h : i.property? visibility = some p) :
    Variable.parse text = .ok ⟨p.type, p.name⟩ ∧ p.name ≠ "" := by
  cases i with
  | property position a d =>
    obtain rfl := Option.some.inj htext
    simp only [property?] at h
    split at h
    · rename_i hparse
      split at h
      · cases h
      · rename_i hname
        obtain rfl := Option.some.inj h
        exact ⟨hparse, hname⟩
    · cases h
  | _ => cases htext

/-- The set accessor assigns to a property unless its type is one that cannot be assigned to. -/
theorem isAssignable_iff {p : Property} : isAssignable p = true ↔ ¬p.type.IsFixed := by
  cases harray : p.type.isArray <;> cases href : p.type.isReference <;>
    cases hconst : p.type.isConst <;> cases hpointer : p.type.isPointer <;>
    simp [isAssignable, TypeRef.IsFixed, harray, href, hconst, hpointer]

/-- There is no case for a member that cannot be assigned to, and one for any other that is
reached. -/
def KeepsPromise (cases : List String) (reachable fixed : Prop) : Prop :=
  (fixed → cases = []) ∧ (reachable → ¬fixed → cases.length = 1)

/-- The promise is kept where what looks fixed and is reached is what is fixed and is reached. -/
theorem keepsPromise_iff {reachable fixed looks : Prop} [Decidable (reachable ∧ ¬looks)]
    (line : String) :
    KeepsPromise (if reachable ∧ ¬looks then [line] else []) reachable fixed ↔
      (reachable → (fixed ↔ looks)) := by
  unfold KeepsPromise
  split
  · rename_i h
    simp [h]
  · rename_i h
    have hlooks : reachable → looks := fun hreach => by_contra fun hnot => h ⟨hreach, hnot⟩
    constructor
    · rintro ⟨-, hcase⟩ hreach
      exact iff_of_true (by_contra fun hnot => by cases hcase hreach hnot) (hlooks hreach)
    · intro hiff
      exact ⟨fun _ => rfl, fun hreach hnot => (hnot ((hiff hreach).2 (hlooks hreach))).elim⟩

/-- **The set accessor has a case for a property just if it reaches it and the declaration does not
tell that it cannot be assigned to.** So it assigns to what it should, and to nothing else, just if
what is heard of the declaration of each property that it reaches tells that the member is fixed
just if it is. Of members without groups but argument lists it is so unless they are overlooked. -/
theorem set_cases_iff (v : Vocabulary) (path fileId source : String) {i : Nat} {c : Container}
    (hc : (recorded v path fileId source)[i]? = some (some c)) (hkind : c.kind ≠ .enum)
    (options : GenerationOptions) (ancestors : List Container) :
    Tables.generate options ⟨c, ancestors⟩ .inlined =
      lines (Tables.inlinedLines options.runtimeNamespace ⟨c, ancestors⟩) ∧
    (∃ cases, setSwitch options.runtimeNamespace ⟨c, ancestors⟩ = "    switch (index) \x7b" ::
      (cases ++ ["        default: (void)self; (void)value; return false;", "    \x7d"])) ∧
    ∀ (k : Nat) (x : BodyItem) (text : String), (bodyOf v source i)[k]? = some x →
      x.item.propertyText? = some text →
      ∃ p place cases, place = propertyCount ((bodyOf v source i).take k) ∧
        c.properties[place]? = some p ∧ Variable.parse text = .ok ⟨p.type, p.name⟩ ∧
        cases = (setSwitch options.runtimeNamespace ⟨c, ancestors⟩).filter (isCase place) ∧
        cases = (if isReachable c p = true ∧ ¬LooksFixed (tokens text)
          then [Tables.setCase p.name place] else []) ∧
        ∀ m : DataMember, m.tokens = tokens text →
          (KeepsPromise cases (isReachable c p = true) m.IsFixed ↔
            (isReachable c p = true → (m.IsFixed ↔ LooksFixed (tokens text)))) ∧
          (m.IsPlain → (KeepsPromise cases (isReachable c p = true) m.IsFixed ↔
            (isReachable c p = true → ¬m.IsOverlooked))) := by
  refine ⟨Tables.generate_inlined options _, ⟨_, Tables.setSwitch_eq _ hkind⟩,
    fun k x text hx htext => ?_⟩
  obtain ⟨hfilled, hsound⟩ := filled_recorded hc
  obtain ⟨p, hp, -⟩ := Item.exists_property? (hsound x (List.mem_of_getElem? hx))
    (Item.member?_of_propertyText? htext)
    (labelAccess c.kind.defaultVisibility ((bodyOf v source i).take k))
  obtain ⟨hparse, hname⟩ := Item.parse_of_property? htext hp
  obtain ⟨⟨before, array, hbefore⟩, hlooks⟩ := looksFixed_iff hparse hname
  obtain ⟨place, hplace⟩ : ∃ place, place = propertyCount ((bodyOf v source i).take k) := ⟨_, rfl⟩
  have hrecorded : c.properties[place]? = some p := by
    rw [hplace, hfilled.properties]
    exact getElem?_properties hsound hx hp
  have hcases := Tables.filter_isCase_setSwitch (r := ⟨c, ancestors⟩) options.runtimeNamespace
    hkind hrecorded
  simp only [isAssignable_iff, hlooks] at hcases
  refine ⟨p, place, _, hplace, hrecorded, hparse, rfl, hcases, fun m hm => ?_⟩
  rw [hcases, keepsPromise_iff]
  refine ⟨.rfl, fun hplain => ?_⟩
  rw [← hplain.fixed_iff_looksFixed ⟨_, hm ▸ hbefore⟩, hm]

/-- The member `const int x`. -/
def constantInt : DataMember where
  parts := [.token "const", .token "int"]
  name := "x"

/-- A constant is left alone. -/
theorem set_cases_constant :
    ∃ c x, (recorded {} "a.h" "a.h"
        "STRUCT() struct S \x7b GENERATED_BODY() PROPERTY() const int x; \x7d;")[0]? =
          some (some c) ∧
      c.kind ≠ .enum ∧
      (bodyOf {} "STRUCT() struct S \x7b GENERATED_BODY() PROPERTY() const int x; \x7d;" 0)[1]? =
        some x ∧
      x.item.propertyText? = some "const int x" ∧ constantInt.IsFixed ∧
      (setSwitch "::reflect" ⟨c, []⟩).filter (isCase 0) = [] := by
  have hread : ∃ c ∈ (recorded {} "a.h" "a.h"
      "STRUCT() struct S \x7b GENERATED_BODY() PROPERTY() const int x; \x7d;")[0]?.join,
      c.kind ≠ .enum ∧ c.generatedBodyLine.isSome = true ∧
      ∃ x ∈ (bodyOf {}
          "STRUCT() struct S \x7b GENERATED_BODY() PROPERTY() const int x; \x7d;" 0)[1]?,
        x.item.propertyText? = some "const int x" ∧
        0 = propertyCount ((bodyOf {}
          "STRUCT() struct S \x7b GENERATED_BODY() PROPERTY() const int x; \x7d;" 0).take 1) := by
    decide +kernel
  obtain ⟨c, hc, hkind, hmarked, x, hx, htext, hplace⟩ := hread
  have hslot := Option.join_eq_some_iff.1 hc
  have hfixed : constantInt.IsFixed := by decide +kernel
  have hplain : constantInt.IsPlain :=
    ⟨by decide +kernel, by decide +kernel, by simp [constantInt], by simp [constantInt]⟩
  obtain ⟨-, -, hcases⟩ := set_cases_iff {} "a.h" "a.h" _ hslot hkind {} []
  obtain ⟨p, _, _, rfl, -, -, rfl, -, hmember⟩ := hcases 1 x _ hx htext
  obtain ⟨-, hkeeps⟩ := hmember constantInt (by decide +kernel)
  have hnone := ((hkeeps hplain).2 fun _ => by decide +kernel).1 hfixed
  rw [← hplace] at hnone
  exact ⟨c, x, hslot, hkind, hx, htext, hfixed, hnone⟩

/-- The member `int* const p`. -/
def constantPointer : DataMember where
  parts := [.token "int", .token "*", .token "const"]
  name := "p"

/-- A constant pointer is assigned to. -/
theorem const_pointer_assigned :
    ¬∀ (v : Vocabulary) (path fileId source : String) (i : Nat) (c : Container),
      (recorded v path fileId source)[i]? = some (some c) → c.kind ≠ .enum →
        ∀ (runtime : String) (ancestors : List Container) (k : Nat) (x : BodyItem) (text : String),
          (bodyOf v source i)[k]? = some x → x.item.propertyText? = some text →
            ∀ place p, place = propertyCount ((bodyOf v source i).take k) →
              c.properties[place]? = some p →
              ∀ m : DataMember, m.IsPlain → m.tokens = tokens text →
                KeepsPromise ((setSwitch runtime ⟨c, ancestors⟩).filter (isCase place))
                  (isReachable c p = true) m.IsFixed := by
  intro h
  have hread : ∃ c ∈ (recorded {} "a.h" "a.h"
      "STRUCT() struct S \x7b GENERATED_BODY() PROPERTY() int* const p; \x7d;")[0]?.join,
      c.kind ≠ .enum ∧ (Tables.setBody c).filter (isCase 0) ≠ [] ∧ c.properties[0]?.isSome = true ∧
      ∃ x ∈ (bodyOf {}
          "STRUCT() struct S \x7b GENERATED_BODY() PROPERTY() int* const p; \x7d;" 0)[1]?,
        x.item.propertyText? = some "int* const p" ∧
        0 = propertyCount ((bodyOf {}
          "STRUCT() struct S \x7b GENERATED_BODY() PROPERTY() int* const p; \x7d;" 0).take 1) := by
    decide +kernel
  obtain ⟨c, hc, hkind, hcase, hsome, x, hx, htext, hplace⟩ := hread
  obtain ⟨p, hp⟩ := Option.isSome_iff_exists.1 hsome
  have hplain : constantPointer.IsPlain :=
    ⟨by decide +kernel, by decide +kernel, by simp [constantPointer], by simp [constantPointer]⟩
  have hkeeps := h {} "a.h" "a.h" _ 0 c (Option.join_eq_some_iff.1 hc) hkind "" [] 1 x _ hx htext
    0 p hplace hp constantPointer hplain (by decide +kernel)
  rw [Tables.setSwitch_eq _ hkind] at hkeeps
  exact hcase (hkeeps.1 (by decide +kernel))

end HeaderReflection
