import HeaderReflection.Proofs.Lineage.Flattening

/-!
# Ancestors as reachable containers

A container may be among the ancestors several times, once for each way that leads to it. Its name
is listed once, at the place of the first.

* `firstOccurrences_eraseDups`: what is left when repetitions are dropped.
* `Lineage.Flattens.mem_iff`: the ancestors are what one or more bases lead to.
* `Lineage.isA_iff`: the names that a resolved container answers to.
-/

namespace HeaderReflection

/-! ## First occurrences -/

/-- The items of a list, each once, in the order in which they first occur in it. -/
structure FirstOccurrences {α : Type} [BEq α] (firsts xs : List α) : Prop where
  mem_iff : ∀ x, x ∈ firsts ↔ x ∈ xs
  order : firsts.Pairwise fun x y => xs.idxOf x < xs.idxOf y

theorem FirstOccurrences.nodup {α : Type} [BEq α] {firsts xs : List α}
    (h : FirstOccurrences firsts xs) : firsts.Nodup :=
  h.order.imp fun hlt => by
    rintro rfl
    exact Nat.lt_irrefl _ hlt

/-- What is left when repetitions are dropped are the first occurrences. -/
theorem firstOccurrences_eraseDups {α : Type} [BEq α] [LawfulBEq α] (xs : List α) :
    FirstOccurrences xs.eraseDups xs where
  mem_iff _ := List.mem_eraseDups
  order := by
    induction xs using List.reverseRecOn with
    | nil => exact List.Pairwise.nil
    | append_singleton xs x ih =>
      have hold : xs.eraseDups.Pairwise fun y z => (xs ++ [x]).idxOf y < (xs ++ [x]).idxOf z :=
        ih.imp_of_mem fun hy hz hlt => by
          rwa [List.idxOf_append_of_mem (List.mem_eraseDups.1 hy),
            List.idxOf_append_of_mem (List.mem_eraseDups.1 hz)]
      rw [List.eraseDups_append]
      by_cases hx : x ∈ xs
      · simpa [List.removeAll, hx] using hold
      · have hnew : ([x].removeAll xs).eraseDups = [x] := by
          simp [List.removeAll, hx, List.eraseDups_cons]
        rw [hnew, List.pairwise_append]
        refine ⟨hold, List.pairwise_singleton _ _, fun y hy z hz => ?_⟩
        have hy := List.mem_eraseDups.1 hy
        rw [List.mem_singleton.1 hz, List.idxOf_append_of_mem hy, List.idxOf_append_of_notMem hx]
        exact Nat.lt_add_right _ (List.idxOf_lt_length_iff.2 hy)

namespace Lineage

/-! ## Ways to ancestors -/

/-- The container at place `i` has a base that resolves to the container at place `j`. -/
def ResolvesTo (cs : List Container) (external : List String) (i j : Nat) : Prop :=
  ∃ c, cs[i]? = some c ∧ ∃ base ∈ c.bases, ∃ target,
    lookup cs external c base = .ok (some (target, j))

variable {cs : List Container} {external : List String} {bases : List TypeRef}
  {up : List Container} {a : Container}

/-- Some base leads to each ancestor. -/
theorem Flattens.exists_way (h : Flattens cs external bases up) (ha : a ∈ up) :
    ∃ base ∈ bases, ∃ target place, target? cs base = some (target, place) ∧
      ∃ j, Relation.ReflTransGen (Derives cs) place j ∧ cs[j]? = some a := by
  induction h with
  | nil => cases ha
  | outside _ _ _ ih =>
    obtain ⟨base, hbase, hway⟩ := ih ha
    exact ⟨base, List.mem_cons_of_mem _ hbase, hway⟩
  | inside _ ht _ _ ihu ihm =>
    rcases List.mem_append.1 ha with ha | ha
    · refine ⟨_, List.mem_cons_self, _, _, ht, ?_⟩
      rcases List.mem_cons.1 ha with rfl | ha
      · exact ⟨_, .refl, getElem?_of_target? ht⟩
      · obtain ⟨base, hbase, target, place, ht', j, hway, hj⟩ := ihu ha
        exact ⟨j, hway.head ⟨_, getElem?_of_target? ht, base, hbase, target, ht'⟩, hj⟩
    · obtain ⟨base, hbase, hway⟩ := ihm ha
      exact ⟨base, List.mem_cons_of_mem _ hbase, hway⟩

/-- What a base leads to is among the ancestors. -/
theorem Flattens.mem_of_way (h : Flattens cs external bases up) {base : TypeRef}
    (hbase : base ∈ bases) {target : Container} {place j : Nat}
    (ht : target? cs base = some (target, place))
    (hway : Relation.ReflTransGen (Derives cs) place j) (hj : cs[j]? = some a) : a ∈ up := by
  induction h generalizing base target place with
  | nil => cases hbase
  | outside _ hnone _ ih =>
    rcases List.mem_cons.1 hbase with rfl | hbase
    · rw [hnone] at ht
      cases ht
    · exact ih hbase ht hway
  | inside _ hsome _ _ ihu ihm =>
    rcases List.mem_cons.1 hbase with rfl | hbase
    · rw [hsome] at ht
      obtain ⟨rfl, rfl⟩ := Prod.mk.inj (Option.some.inj ht)
      refine List.mem_append_left _ (List.mem_cons.2 ?_)
      rcases hway.cases_head with rfl | ⟨next, ⟨c, hc, base', hbase', target', ht'⟩, hway⟩
      · rw [getElem?_of_target? hsome] at hj
        exact .inl (Option.some.inj hj).symm
      · rw [getElem?_of_target? hsome] at hc
        obtain rfl := Option.some.inj hc
        exact .inr (ihu hbase' ht' hway)
    · exact List.mem_append_right _ (ihm hbase ht hway)

/-- The ancestors of the container at a place are what one or more bases lead to from there. -/
theorem Flattens.mem_iff {c : Container} {i : Nat} (hc : cs[i]? = some c)
    (h : Flattens cs external c.bases up) :
    a ∈ up ↔ ∃ j, Relation.TransGen (Derives cs) i j ∧ cs[j]? = some a := by
  constructor
  · intro ha
    obtain ⟨base, hbase, target, place, ht, j, hway, hj⟩ := h.exists_way ha
    exact ⟨j, .head' ⟨c, hc, base, hbase, target, ht⟩ hway, hj⟩
  · rintro ⟨j, hways, hj⟩
    obtain ⟨place, ⟨c', hc', base, hbase, target, ht⟩, hway⟩ :=
      Relation.TransGen.head'_iff.1 hways
    rw [hc] at hc'
    obtain rfl := Option.some.inj hc'
    exact h.mem_of_way hbase ht hway hj

theorem derives_iff_resolvesTo
    (hsettled : ∀ c ∈ cs, ∀ base ∈ c.bases, Settled cs external base) {i j : Nat} :
    Derives cs i j ↔ ResolvesTo cs external i j := by
  constructor
  · rintro ⟨c, hc, base, hbase, target, ht⟩
    exact ⟨c, hc, base, hbase, target,
      lookup_eq_ok_iff.2 ⟨hsettled c (List.mem_of_getElem? hc) base hbase, ht.symm⟩⟩
  · rintro ⟨c, hc, base, hbase, target, hlookup⟩
    exact ⟨c, hc, base, hbase, target, (lookup_eq_ok_iff.1 hlookup).2.symm⟩

/-- A resolved container answers to its own name and to those of the containers that one or more
bases lead to. -/
theorem isA_iff {rs : List Resolved} (h : resolve cs external = .ok rs) {i : Nat} {r : Resolved}
    (hr : rs[i]? = some r) (q : String) :
    r.isA q = true ↔ r.container.name = q ∨
      ∃ j c, Relation.TransGen (ResolvesTo cs external) i j ∧ cs[j]? = some c ∧ c.name = q := by
  obtain ⟨hmap, hall⟩ := flattens_of_resolve h
  have hflattens := hall r (List.mem_of_getElem? hr)
  have hcontainer : cs[i]? = some r.container := by
    rw [← hmap, List.getElem?_map, hr]
    rfl
  have hsettled : ∀ c ∈ cs, ∀ base ∈ c.bases, Settled cs external base := by
    intro c hc
    obtain ⟨s, hs, rfl⟩ := List.mem_map.1 (hmap ▸ hc)
    exact (hall s hs).settled
  have hsame : Derives cs = ResolvesTo cs external := by
    ext i j
    exact derives_iff_resolvesTo hsettled
  have hmem : ∀ a, a ∈ r.ancestors ↔
      ∃ j, Relation.TransGen (ResolvesTo cs external) i j ∧ cs[j]? = some a := fun a => by
    rw [hflattens.mem_iff hcontainer, hsame]
  simp only [Resolved.isA, Bool.or_eq_true, decide_eq_true_eq, List.any_eq_true, hmem]
  refine or_congr_right ⟨?_, ?_⟩
  · rintro ⟨c, ⟨j, hway, hj⟩, hname⟩
    exact ⟨j, c, hway, hj, hname⟩
  · rintro ⟨j, c, hway, hj, hname⟩
    exact ⟨c, ⟨j, hway, hj⟩, hname⟩

end Lineage

end HeaderReflection
