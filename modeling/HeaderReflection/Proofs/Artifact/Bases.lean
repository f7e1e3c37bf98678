import HeaderReflection.Proofs.Artifact.Indices
import HeaderReflection.Proofs.Lineage.Flattening

/-!
# Registered bases

The registration block of a container finds its direct bases again by their names, among all its
ancestors. Many containers may stand there, some of them several times, but each of them is what
some base means, so its name means no other container.

* `Lineage.Flattens.find?_eq`: a base, looked up by name among the ancestors.
* `Registration.directBases_eq`: the direct bases are what the bases resolve to.
* `registered_bases`: the lines for bases in the block of a resolved container.
-/

namespace HeaderReflection

namespace Lineage

variable {cs : List Container} {external : List String} {bases : List TypeRef}
  {up : List Container} {base : TypeRef} {target : Container} {place : Nat}

/-! ## Names among the ancestors -/

theorem name_of_target? (h : target? cs base = some (target, place)) :
    target.name = base.baseName := by
  have hbears := List.find?_some h
  simp only [bears, Bool.and_eq_true, decide_eq_true_eq] at hbears
  exact hbears.2

/-- What a base means depends on the last part of its name alone. -/
theorem target?_congr {other : TypeRef} (h : base.baseName = other.baseName) :
    target? cs base = target? cs other := by
  rw [target?, target?, h]

/-- Every ancestor is what some base means. -/
theorem Flattens.exists_target? (h : Flattens cs external bases up) :
    ∀ a ∈ up, ∃ base place, target? cs base = some (a, place) := by
  induction h with
  | nil => simp
  | outside _ _ _ ih => exact ih
  | inside _ ht _ _ ihu ihm =>
    intro a ha
    rcases List.mem_append.1 ha with ha | ha
    · rcases List.mem_cons.1 ha with rfl | ha
      · exact ⟨_, _, ht⟩
      · exact ihu a ha
    · exact ihm a ha

/-- What a base means is among the ancestors. -/
theorem Flattens.mem_of_target? (h : Flattens cs external bases up) (hbase : base ∈ bases)
    (ht : target? cs base = some (target, place)) : target ∈ up := by
  induction h with
  | nil => cases hbase
  | outside _ hnone _ ih =>
    rcases List.mem_cons.1 hbase with rfl | hbase
    · rw [hnone] at ht
      cases ht
    · exact ih hbase
  | inside _ hsome _ _ _ ih =>
    rcases List.mem_cons.1 hbase with rfl | hbase
    · rw [hsome] at ht
      obtain ⟨rfl, -⟩ := Prod.mk.inj (Option.some.inj ht)
      simp
    · exact List.mem_append_right _ (ih hbase)

/-- **A base is found again by its name.** The first ancestor with the name of a base is what the
base means, and if it means nothing, no ancestor has its name. -/
theorem Flattens.find?_eq (h : Flattens cs external bases up) (hbase : base ∈ bases) :
    up.find? (·.name = base.baseName) = (target? cs base).map Prod.fst := by
  -- an ancestor of this name is what a base means, and this one means the same
  have hsame : ∀ a ∈ up, a.name = base.baseName → ∃ place, target? cs base = some (a, place) := by
    intro a ha hname
    obtain ⟨other, place, ht⟩ := h.exists_target? a ha
    exact ⟨place, target?_congr (hname.symm.trans (name_of_target? ht)) ▸ ht⟩
  cases ht : target? cs base with
  | none =>
    refine List.find?_eq_none.2 fun a ha hname => ?_
    obtain ⟨place, hmeans⟩ := hsame a ha (of_decide_eq_true hname)
    rw [ht] at hmeans
    cases hmeans
  | some found =>
    obtain ⟨target, place⟩ := found
    have hmem := h.mem_of_target? hbase ht
    have hexists : (up.find? (·.name = base.baseName)).isSome = true :=
      List.find?_isSome.2 ⟨target, hmem, decide_eq_true (name_of_target? ht)⟩
    obtain ⟨a, ha⟩ := Option.isSome_iff_exists.1 hexists
    have hname : a.name = base.baseName := by simpa using List.find?_some ha
    obtain ⟨_, hmeans⟩ := hsame a (List.mem_of_find?_eq_some ha) hname
    rw [ht] at hmeans
    obtain ⟨rfl, -⟩ := Prod.mk.inj (Option.some.inj hmeans)
    exact ha

/-- The containers that the bases of a container resolve to, in the order of the bases. -/
def resolvedBases (cs : List Container) (external : List String) (c : Container) :
    List Container :=
  c.bases.filterMap fun base =>
    match lookup cs external c base with
    | .ok (some (target, _)) => some target
    | _ => none

end Lineage

namespace Registration

open Lineage (lookup lookup_eq_ok_iff resolvedBases target?)

variable {cs : List Container} {external : List String} {rs : List Resolved} {r : Resolved}

/-- The direct bases of a resolved container are what its bases resolve to. -/
theorem directBases_eq (h : resolve cs external = .ok rs) (hr : r ∈ rs) :
    directBases r = resolvedBases cs external r.container := by
  have hflattens := (Lineage.flattens_of_resolve h).2 r hr
  refine List.filterMap_congr fun base hbase => ?_
  have hlookup : lookup cs external r.container base = .ok (target? cs base) :=
    lookup_eq_ok_iff.2 ⟨hflattens.settled base hbase, rfl⟩
  rw [hflattens.find?_eq hbase, hlookup]
  cases target? cs base <;> rfl

/-- The lines for bases. -/
def baseEntries (options : GenerationOptions) (r : Resolved) : List String :=
  (inlinedLines options r).filter (startsWith (entryStart options "BASE"))

theorem baseEntries_eq (options : GenerationOptions) (r : Resolved) :
    baseEntries options r =
      if options.typeInfo then
        (directBases r).map fun base => entry options "BASE" [base.qualifiedName]
      else [] := by
  unfold baseEntries inlinedLines
  split
  · rw [filter_blockEntries options r (by decide)]
    simp [blockEntries, List.filter_append, List.filter_map, Function.comp_def]
  · rfl

end Registration

open Lineage Registration in
/-- **The registered bases are the resolved direct bases.** If the bases of containers can be
resolved, each of them is looked up with success, and the registration block of each container has
a line for each base that resolves to a container, in the order of the bases, with the qualified
name of that container. No other line is one for a base, and the header part has none. -/
theorem registered_bases (options : GenerationOptions) {cs : List Container}
    {external : List String} {rs : List Resolved} (h : resolve cs external = .ok rs) :
    rs.map (·.container) = cs ∧
    ∀ r ∈ rs,
      Registration.generate options r .header = "" ∧
      Registration.generate options r .inlined = lines (Registration.inlinedLines options r) ∧
      (∀ base ∈ r.container.bases, ∃ found,
        lookup cs external r.container base = .ok found) ∧
      baseEntries options r =
        if options.typeInfo then
          (resolvedBases cs external r.container).map fun target =>
            "    " ++ options.macroPrefix ++ "_TYPE_BASE(" ++ target.qualifiedName ++ ")"
        else [] := by
  obtain ⟨hmap, hall⟩ := flattens_of_resolve h
  refine ⟨hmap, fun r hr => ⟨rfl, Registration.generate_inlined options r, ?_, ?_⟩⟩
  · intro base hbase
    exact ⟨_, lookup_eq_ok_iff.2 ⟨(hall r hr).settled base hbase, rfl⟩⟩
  · rw [baseEntries_eq, directBases_eq h hr]
    simp [entry, invoke, String.append_assoc]

/-- A class with three bases, one of them external. The name of the second is that of an enum too,
and of an ancestor of the first. -/
def family : List Container :=
  let named (kind : ContainerKind) (name : String) (bases : List String) : Container :=
    { name, kind, scope := ["game"], fileId := name ++ ".h", position := .start
      bases := bases.map .named }
  [named .enum "Right" [], named .class "Tip" ["Left", "game::Right", "std::enable"],
    named .class "Left" ["Right"], named .class "Right" []]

theorem registered_bases_family :
    ∃ rs, resolve family ["enable"] = .ok rs ∧
      rs.map (fun r => r.ancestors.map (·.name)) = [[], ["Left", "Right", "Right"], ["Right"], []] ∧
      ∀ r ∈ rs, r.container.name = "Tip" →
        Registration.baseEntries { typeInfo := true } r =
          ["    REFLECT_TYPE_BASE(game::Left)", "    REFLECT_TYPE_BASE(game::Right)"] := by
  obtain ⟨rs, h, hnames⟩ : ∃ rs, resolve family ["enable"] = .ok rs ∧
      rs.map (fun r => r.ancestors.map (·.name)) =
        [[], ["Left", "Right", "Right"], ["Right"], []] :=
    ⟨_, by cbv, rfl⟩
  refine ⟨rs, h, hnames, fun r hr htip => ?_⟩
  obtain ⟨hmap, hall⟩ := registered_bases { typeInfo := true } h
  have hmem : r.container ∈ family := hmap ▸ List.mem_map_of_mem hr
  have hbases : ∀ c ∈ family, c.name = "Tip" →
      (Lineage.resolvedBases family ["enable"] c).map (·.qualifiedName) =
        ["game::Left", "game::Right"] := by
    decide
  obtain ⟨-, -, -, hentries⟩ := hall r hr
  have hlines := congrArg (List.map fun name => "    REFLECT_TYPE_BASE(" ++ name ++ ")")
    (hbases r.container hmem htip)
  rw [List.map_map] at hlines
  exact hentries.trans hlines

end HeaderReflection
