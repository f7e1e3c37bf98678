import HeaderReflection.Proofs.Outcome
import HeaderReflection.Proofs.Scope.Forest

/-!
# Items and the frame around them

An item changes the frame of the innermost open container, and nothing else of a builder. Several
items add what they declare, each with the access that the labels before it set.

* `Item.properties_append`, `Item.methods_append`: what items declare, one part after the other.
* `Frame.Gains`: a frame and the one behind some items.
* `Builder.addProperty_gains` and the like: what a builder does with an item.
-/

namespace HeaderReflection

open Text (Position)

/-! ## Items in order -/

namespace Item

theorem accessAfter_cons (v : Visibility) (i : Item) (items : List Item) :
    accessAfter v (i :: items) = accessAfter (i.label?.getD v) items := by
  cases h : i.label? with
  | none => simp [accessAfter, h]
  | some w =>
    simp only [accessAfter, List.filterMap_cons, h, Option.getD_some]
    rw [List.getLast?_cons]
    simp

theorem accessed_append (v : Visibility) (items js : List Item) :
    accessed v (items ++ js) = accessed v items ++ accessed (accessAfter v items) js := by
  induction items generalizing v with
  | nil => simp [accessed, accessAfter]
  | cons i items ih => simp [accessed, ih, accessAfter_cons]

theorem accessAfter_append (v : Visibility) (items js : List Item) :
    accessAfter v (items ++ js) = accessAfter (accessAfter v items) js := by
  induction items generalizing v with
  | nil => simp [accessAfter]
  | cons i items ih => simp [accessAfter_cons, ih]

theorem properties_append (v : Visibility) (items js : List Item) :
    properties v (items ++ js) = properties v items ++ properties (accessAfter v items) js := by
  simp [properties, accessed_append]

theorem methods_append (v : Visibility) (items js : List Item) :
    methods v (items ++ js) = methods v items ++ methods (accessAfter v items) js := by
  simp [methods, accessed_append]

theorem bodyLine_append (items js : List Item) :
    bodyLine (items ++ js) = (bodyLine js).or (bodyLine items) := by
  simp [bodyLine, List.getLast?_append]

end Item

/-! ## Frames with more items -/

/-- The frame behind some items. The first fault among them is given. -/
def Frame.withItems (f : Frame) (items : List Item) (fault : Option Fault) : Frame :=
  { f with
    container :=
      { f.container with
        properties := f.container.properties ++ Item.properties f.visibility items
        methods := f.container.methods ++ Item.methods f.visibility items
        generatedBodyLine := (Item.bodyLine items).or f.container.generatedBodyLine }
    visibility := Item.accessAfter f.visibility items
    fault }

namespace Frame

theorem withItems_nil (f : Frame) : f.withItems [] f.fault = f := by
  simp [withItems, Item.properties, Item.methods, Item.accessed, Item.bodyLine, Item.accessAfter]

theorem withItems_withItems (f : Frame) (items js : List Item) (e e' : Option Fault) :
    (f.withItems items e).withItems js e' = f.withItems (items ++ js) e' := by
  simp [withItems, Item.properties_append, Item.methods_append, Item.bodyLine_append,
    Item.accessAfter_append, Option.or_assoc]

theorem withItems_singleton (f : Frame) (i : Item) (fault : Option Fault) :
    f.withItems [i] fault =
      { f with
        container :=
          { f.container with
            properties := f.container.properties ++ (i.property? f.visibility).toList
            methods := f.container.methods ++ (i.method? f.visibility).toList
            generatedBodyLine := i.bodyLine?.or f.container.generatedBodyLine }
        visibility := i.label?.getD f.visibility
        fault } := by
  cases hp : i.property? f.visibility <;> cases hm : i.method? f.visibility <;>
    cases hb : i.bodyLine? <;>
    simp [withItems, Item.properties, Item.methods, Item.accessed, Item.bodyLine,
      Item.accessAfter, hp, hm, hb]

theorem isSome_fault_blame (f : Frame) (fault : Fault) : (f.blame fault).fault ≠ none := by
  simp [blame]

/-- A frame and the one behind some items, which has a fault if one of them is not well formed. -/
def Gains (items : List Item) (f g : Frame) : Prop :=
  ∃ fault, g = f.withItems items fault ∧
    (fault = none ↔ f.fault = none ∧ ∀ i ∈ items, i.isSound = true)

namespace Gains

variable {f g h : Frame} {items js : List Item}

theorem nil (f : Frame) : Gains [] f f :=
  ⟨f.fault, f.withItems_nil.symm, by simp⟩

theorem trans (hf : Gains items f g) (hg : Gains js g h) : Gains (items ++ js) f h := by
  obtain ⟨e, rfl, he⟩ := hf
  obtain ⟨e', rfl, he'⟩ := hg
  refine ⟨e', withItems_withItems .., ?_⟩
  rw [he', List.forall_mem_append, ← and_assoc, ← he]
  rfl

theorem slot (hf : Gains items f g) : g.slot = f.slot := by
  obtain ⟨_, rfl, -⟩ := hf
  rfl

theorem depth (hf : Gains items f g) : g.depth = f.depth := by
  obtain ⟨_, rfl, -⟩ := hf
  rfl

theorem name (hf : Gains items f g) : g.container.name = f.container.name := by
  obtain ⟨_, rfl, -⟩ := hf
  rfl

/-- One item that is a fault, or that has one. -/
theorem blame {i : Item} (hi : i.isSound = false) (hp : i.property? f.visibility = none)
    (hm : i.method? f.visibility = none) (hl : i.label? = none) (hb : i.bodyLine? = none)
    (fault : Fault) : Gains [i] f (f.blame fault) := by
  refine ⟨(f.blame fault).fault, ?_, ?_⟩
  · simp [withItems_singleton, Frame.blame, hp, hm, hl, hb]
  · simp [isSome_fault_blame, hi]

end Gains

end Frame

namespace Builder

/-! ## One item -/

/-- The builder stands directly in the body of its innermost container. -/
def direct (b : Builder) : Bool :=
  match b.frames with
  | [] => false
  | f :: _ => f.depth = b.depth

theorem parseAttributes_eq (path : String) (e : Excerpt) :
    parseAttributes path e = (Attributes.parse e.text e.position).mapError (·.inFile path) := rfl

section Items

variable {b : Builder} {f : Frame} {outer : List Frame}

theorem addProperty_gains (h : b.frames = f :: outer) (position : Position) (a d : Excerpt) :
    ∃ g, b.addProperty position a d = { b with frames := g :: outer } ∧
      f.Gains [.property position a d] g := by
  unfold addProperty
  simp only [h, parseAttributes_eq]
  cases ha : Attributes.parse a.text a.position with
  | error _ =>
    exact ⟨_, rfl, .blame (by simp [Item.isSound, ha, Except.isOk, Except.toBool])
      (by simp [Item.property?, ha]) rfl rfl rfl _⟩
  | ok attributes =>
    cases hd : Variable.parse d.text with
    | error _ =>
      exact ⟨_, rfl, .blame (by simp [Item.isSound, hd, Except.toOption])
        (by simp [Item.property?, ha, hd]) rfl rfl rfl _⟩
    | ok v =>
      obtain ⟨type, name⟩ := v
      by_cases hn : name = ""
      · simp only [ok_mapError, hn, if_true]
        exact ⟨_, rfl, .blame (by simp [Item.isSound, hd, hn, Except.toOption])
          (by simp [Item.property?, ha, hd, hn]) rfl rfl rfl _⟩
      · simp only [ok_mapError, hn, if_false]
        refine ⟨_, rfl, f.fault, ?_, ?_⟩
        · simp [Frame.withItems_singleton, Item.property?, Item.method?, Item.bodyLine?,
            Item.label?, ha, hd, hn]
        · simp [Item.isSound, ha, hd, hn, Except.toOption, Except.isOk, Except.toBool]

theorem addMethod_gains (h : b.frames = f :: outer) (position : Position) (a d : Excerpt) :
    ∃ g, b.addMethod position a d = { b with frames := g :: outer } ∧
      f.Gains [.function position a d] g := by
  unfold addMethod
  simp only [h, parseAttributes_eq]
  cases ha : Attributes.parse a.text a.position with
  | error _ =>
    exact ⟨_, rfl, .blame (by simp [Item.isSound, ha, Except.isOk, Except.toBool])
      rfl (by simp [Item.method?, ha]) rfl rfl _⟩
  | ok attributes =>
    cases hd : Signature.parse d.text with
    | error _ =>
      exact ⟨_, rfl, .blame (by simp [Item.isSound, hd, Except.isOk, Except.toBool])
        rfl (by simp [Item.method?, ha, hd]) rfl rfl _⟩
    | ok signature =>
      simp only [ok_mapError]
      refine ⟨_, rfl, f.fault, ?_, ?_⟩
      · simp [Frame.withItems_singleton, Item.property?, Item.method?, Item.bodyLine?,
          Item.label?, ha, hd]
      · simp [Item.isSound, ha, hd, Except.isOk, Except.toBool]

theorem markBody_gains (h : b.frames = f :: outer) (position : Position) (a : Excerpt) :
    ∃ g, b.markBody position = { b with frames := g :: outer } ∧
      f.Gains [.generatedBody position a] g := by
  unfold markBody
  simp only [h]
  refine ⟨_, rfl, f.fault, ?_, by simp [Item.isSound]⟩
  simp [Frame.withItems_singleton, Item.property?, Item.method?, Item.bodyLine?, Item.label?]

theorem setVisibility_gains (h : b.frames = f :: outer) (hd : b.direct = true)
    (position : Position) (v : Visibility) :
    ∃ g, b.setVisibility v = { b with frames := g :: outer } ∧ f.Gains [.label position v] g := by
  have hd : f.depth = b.depth := by simpa [direct, h] using hd
  unfold setVisibility
  simp only [h, hd, if_true]
  refine ⟨_, rfl, f.fault, ?_, by simp [Item.isSound]⟩
  simp [Frame.withItems_singleton, Item.property?, Item.method?, Item.bodyLine?, Item.label?, hd]

theorem setVisibility_of_not_direct (hd : b.direct = false) (v : Visibility) :
    b.setVisibility v = b := by
  unfold setVisibility
  unfold direct at hd
  split
  · rfl
  · rename_i h
    simp_all

theorem fail_gains (h : b.frames = f :: outer) (fault : ScanFault) (e : Fault) :
    ∃ g, b.fail e = { b with frames := g :: outer } ∧ f.Gains [.fault fault] g := by
  unfold fail
  simp only [h]
  exact ⟨_, rfl, .blame rfl rfl rfl rfl rfl e⟩

end Items

end Builder

end HeaderReflection
