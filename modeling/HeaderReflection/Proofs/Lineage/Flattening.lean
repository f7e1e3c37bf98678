import Mathlib
import HeaderReflection.Container.Lineage
import HeaderReflection.Proofs.Outcome

/-!
# Ancestors as a flattened graph

The bases of containers make up a graph: a base means the one container that bears its name. The
ancestors are the depth-first walk of that graph, and the walk is remembered container by
container.

* `ancestorsFrom_flattens`: what the walk gives is the flattening, and it remembers flattenings
  only.
* `exists_ancestorsFrom`: the walk comes to an end on settled bases if no cycle leads through it.
* `resolve_flattens`: containers can be resolved if and only if their bases are settled and lead to
  no cycle, and then each container's ancestors are the flattening of its bases.
-/

namespace HeaderReflection

namespace Lineage

/-- A base of this name can mean the container. -/
def bears (name : String) (c : Container) : Bool :=
  c.kind ≠ .enum && c.name = name

/-- The first container that a base can mean, with its place. -/
def target? (cs : List Container) (base : TypeRef) : Option (Container × Nat) :=
  cs.zipIdx.find? fun (c, _) => bears base.baseName c

/-- One container alone bears the base's name, or none does and the base is external. -/
def Settled (cs : List Container) (external : List String) (base : TypeRef) : Prop :=
  cs.countP (bears base.baseName) = 1 ∨
    (cs.countP (bears base.baseName) = 0 ∧ (base.baseName ∈ external ∨ base.name ∈ external))

/-- The container at place `i` has a base that means the container at place `j`. -/
def Derives (cs : List Container) (i j : Nat) : Prop :=
  ∃ c, cs[i]? = some c ∧ ∃ base ∈ c.bases, ∃ target, target? cs base = some (target, j)

variable {cs : List Container} {external : List String}

/-! ## Looking up a base -/

theorem candidates_eq_filter (cs : List Container) (name : String) :
    candidates cs name = cs.zipIdx.filter fun (c, _) => bears name c := rfl

theorem length_candidates (cs : List Container) (name : String) :
    (candidates cs name).length = cs.countP (bears name) := by
  rw [candidates_eq_filter, ← List.countP_eq_length_filter]
  conv => rhs; rw [← List.zipIdx_map_fst 0 cs, List.countP_map]
  rfl

theorem head?_candidates (cs : List Container) (base : TypeRef) :
    (candidates cs base.baseName).head? = target? cs base :=
  List.head?_filter

theorem getElem?_of_target? {base : TypeRef} {target : Container} {place : Nat}
    (h : target? cs base = some (target, place)) : cs[place]? = some target :=
  List.mem_zipIdx_iff_getElem?.1 (List.mem_of_find?_eq_some h)

/-- A base is looked up with success if and only if it is settled. -/
theorem lookup_eq_ok_iff {owner : Container} {base : TypeRef} {r : Option (Container × Nat)} :
    lookup cs external owner base = .ok r ↔
      Settled cs external base ∧ r = target? cs base := by
  have hl := length_candidates cs base.baseName
  have hh := head?_candidates cs base
  unfold lookup Settled
  generalize candidates cs base.baseName = found at hl hh
  match found with
  | [] =>
    simp only [List.length_nil, List.head?_nil] at hl hh
    rw [← hl, ← hh]
    by_cases he : base.baseName ∈ external ∨ base.name ∈ external
    · simp [he, eq_comm (b := r)]
    · simp [he]
  | [target] =>
    simp only [List.length_singleton, List.head?_cons] at hl hh
    rw [← hl, ← hh]
    simp [eq_comm (b := r)]
  | a :: b :: rest =>
    simp only [List.length_cons] at hl
    have h1 : cs.countP (bears base.baseName) ≠ 1 := by omega
    have h0 : cs.countP (bears base.baseName) ≠ 0 := by omega
    simp [h0, h1]

/-! ## The flattening -/

/-- The ancestors through bases, read off the graph alone. -/
inductive Flattens (cs : List Container) (external : List String) :
    List TypeRef → List Container → Prop
  | nil : Flattens cs external [] []
  | outside {base : TypeRef} {rest : List TypeRef} {more : List Container} :
      Settled cs external base → target? cs base = none → Flattens cs external rest more →
        Flattens cs external (base :: rest) more
  | inside {base : TypeRef} {rest : List TypeRef} {target : Container} {place : Nat}
      {up more : List Container} :
      Settled cs external base → target? cs base = some (target, place) →
        Flattens cs external target.bases up → Flattens cs external rest more →
          Flattens cs external (base :: rest) (target :: up ++ more)

theorem Flattens.unique {bases : List TypeRef} {up down : List Container}
    (h : Flattens cs external bases up) (h' : Flattens cs external bases down) : up = down := by
  induction h generalizing down with
  | nil => cases h'; rfl
  | outside _ ht _ ih =>
    cases h' with
    | outside _ _ hm => exact ih hm
    | inside _ ht' _ _ => rw [ht] at ht'; cases ht'
  | inside _ ht _ _ ihu ihm =>
    cases h' with
    | outside _ ht' _ => rw [ht] at ht'; cases ht'
    | inside _ ht' hu hm =>
      rw [ht] at ht'
      obtain ⟨rfl, rfl⟩ := Prod.mk.inj (Option.some.inj ht')
      rw [ihu hu, ihm hm]

theorem Flattens.settled {bases : List TypeRef} {up : List Container}
    (h : Flattens cs external bases up) : ∀ base ∈ bases, Settled cs external base := by
  induction h with
  | nil => simp
  | outside hs _ _ ih => exact List.forall_mem_cons.2 ⟨hs, ih⟩
  | inside hs _ _ _ _ ih => exact List.forall_mem_cons.2 ⟨hs, ih⟩

/-- Flattened bases lead on to no endless walk. -/
theorem Flattens.acc {bases : List TypeRef} {up : List Container}
    (h : Flattens cs external bases up) :
    ∀ base ∈ bases, ∀ target place, target? cs base = some (target, place) →
      Acc (fun j i => Derives cs i j) place := by
  induction h with
  | nil => simp
  | outside _ ht _ ih =>
    refine List.forall_mem_cons.2 ⟨?_, ih⟩
    intro target place ht'
    rw [ht] at ht'
    cases ht'
  | inside _ ht _ _ ihu ihm =>
    refine List.forall_mem_cons.2 ⟨?_, ihm⟩
    intro target place ht'
    rw [ht] at ht'
    obtain ⟨rfl, rfl⟩ := Prod.mk.inj (Option.some.inj ht')
    refine Acc.intro _ fun j hj => ?_
    obtain ⟨c, hc, base, hb, next, hn⟩ := hj
    rw [getElem?_of_target? ht] at hc
    cases hc
    exact ihu base hb next j hn

private theorem not_rel_of_acc {α : Type} {r : α → α → Prop} {a : α} (h : Acc r a) : ¬ r a a := by
  induction h with
  | intro a _ ih => exact fun ha => ih a ha ha

/-- A container whose bases can be flattened lies on no cycle. -/
theorem Flattens.acyclic {c : Container} {place : Nat} {up : List Container}
    (hc : cs[place]? = some c) (h : Flattens cs external c.bases up) :
    ¬ Relation.TransGen (Derives cs) place place := by
  have hacc : Acc (fun j i => Derives cs i j) place := by
    refine Acc.intro _ fun j hj => ?_
    obtain ⟨c', hc', base, hb, target, ht⟩ := hj
    rw [hc] at hc'
    cases hc'
    exact h.acc base hb target j ht
  exact fun hcycle => not_rel_of_acc hacc.transGen (Relation.transGen_swap.2 hcycle)

/-! ## The walk -/

/-- What is remembered are flattenings. -/
def Memo.Sound (cs : List Container) (external : List String) (memo : Memo) : Prop :=
  ∀ place up, memo.lookup place = some up →
    ∃ c, cs[place]? = some c ∧ Flattens cs external c.bases up

theorem Memo.Sound.nil : Memo.Sound cs external [] := by
  intro place up h
  cases h

theorem Memo.Sound.remember {memo : Memo} {place : Nat} {c : Container} {up : List Container}
    (hm : memo.Sound cs external) (hc : cs[place]? = some c)
    (hu : Flattens cs external c.bases up) : Memo.Sound cs external ((place, up) :: memo) := by
  intro i up' h
  rw [List.lookup_cons] at h
  by_cases hi : i = place
  · subst hi
    simp only [BEq.rfl, Option.some.injEq] at h
    exact ⟨c, hc, h ▸ hu⟩
  · rw [beq_eq_false_iff_ne.2 hi] at h
    exact hm i up' h

/-- What is recalled is a flattening if what is found is. -/
theorem Memo.recall_flattens {memo memo' : Memo} {place : Nat} {c : Container}
    {find : Memo → Except Fault (List Container × Memo)} {up : List Container}
    (hm : memo.Sound cs external) (hc : cs[place]? = some c)
    (hf : ∀ up memo', find memo = .ok (up, memo') →
      Flattens cs external c.bases up ∧ memo'.Sound cs external)
    (h : memo.recall place find = .ok (up, memo')) :
    Flattens cs external c.bases up ∧ memo'.Sound cs external := by
  unfold Memo.recall at h
  split at h
  · rename_i up' hl
    obtain ⟨rfl, rfl⟩ := Prod.mk.inj (Except.ok.inj h)
    obtain ⟨c', hc', hu⟩ := hm _ _ hl
    rw [hc] at hc'
    cases hc'
    exact ⟨hu, hm⟩
  · obtain ⟨⟨up', memo₁⟩, hr, he⟩ := map_eq_ok_iff.1 h
    obtain ⟨rfl, rfl⟩ := Prod.mk.inj he
    obtain ⟨hu, hs⟩ := hf _ _ hr
    exact ⟨hu, hs.remember hc hu⟩

theorem Memo.exists_recall {memo : Memo} {place : Nat}
    {find : Memo → Except Fault (List Container × Memo)} (h : ∃ r, find memo = .ok r) :
    ∃ r, memo.recall place find = .ok r := by
  obtain ⟨r, hr⟩ := h
  unfold Memo.recall
  split
  · exact ⟨_, rfl⟩
  · rw [hr]
    exact ⟨_, rfl⟩

/-- The walk through bases gives their flattening. -/
theorem ancestorsFrom_flattens {free : List Nat} {path : List (Container × Nat)}
    {owner : Container} {memo memo' : Memo} {bases : List TypeRef} {up : List Container}
    (hm : memo.Sound cs external)
    (h : ancestorsFrom cs external free path owner memo bases = .ok (up, memo')) :
    Flattens cs external bases up ∧ memo'.Sound cs external := by
  induction free, path, owner, memo, bases using ancestorsFrom.induct generalizing up memo' with
  | case1 free path owner memo =>
    rw [ancestorsFrom] at h
    obtain ⟨rfl, rfl⟩ := Prod.mk.inj (Except.ok.inj h)
    exact ⟨.nil, hm⟩
  | case2 free path owner memo base rest ihout ihup ihrest =>
    rw [ancestorsFrom] at h
    obtain ⟨found, hl, h⟩ := bind_eq_ok_iff.1 h
    obtain ⟨hs, ht⟩ := lookup_eq_ok_iff.1 hl
    match found, ht with
    | none, ht =>
      obtain ⟨hu, hm'⟩ := ihout hm h
      exact ⟨.outside hs ht.symm hu, hm'⟩
    | some (target, place), ht =>
      dsimp only at h
      split at h
      · rename_i hfree
        obtain ⟨⟨up₁, memo₁⟩, hr, h⟩ := bind_eq_ok_iff.1 h
        obtain ⟨⟨more, memo₂⟩, hrest, h⟩ := bind_eq_ok_iff.1 h
        obtain ⟨rfl, rfl⟩ := Prod.mk.inj (Except.ok.inj h)
        obtain ⟨hu, hm₁⟩ := Memo.recall_flattens hm (getElem?_of_target? ht.symm)
          (fun _ _ => ihup target place hfree memo hm) hr
        obtain ⟨hmore, hm₂⟩ := ihrest memo₁ hm₁ hrest
        exact ⟨.inside hs ht.symm hu hmore, hm₂⟩
      · cases h

/-- The walk through settled bases comes to an end: only a cycle could stop it, since each place
that is not free leads to the owner of the bases. -/
theorem exists_ancestorsFrom {free : List Nat} {path : List (Container × Nat)}
    {owner : Container} {memo : Memo} {bases : List TypeRef} {home : Nat}
    (hsettled : ∀ c ∈ cs, ∀ base ∈ c.bases, Settled cs external base)
    (hacyclic : ∀ i, ¬ Relation.TransGen (Derives cs) i i)
    (howner : cs[home]? = some owner) (hbases : ∀ base ∈ bases, base ∈ owner.bases)
    (hpath : ∀ i < cs.length, i ∉ free → Relation.ReflTransGen (Derives cs) i home) :
    ∃ r, ancestorsFrom cs external free path owner memo bases = .ok r := by
  induction free, path, owner, memo, bases using ancestorsFrom.induct generalizing home with
  | case1 free path owner memo => exact ⟨_, by rw [ancestorsFrom]⟩
  | case2 free path owner memo base rest ihout ihup ihrest =>
    have hbase := hbases base List.mem_cons_self
    have hrest : ∀ b ∈ rest, b ∈ owner.bases := fun b hb => hbases b (List.mem_cons_of_mem _ hb)
    have hs := hsettled owner (List.mem_of_getElem? howner) base hbase
    have hl : lookup cs external owner base = .ok (target? cs base) :=
      lookup_eq_ok_iff.2 ⟨hs, rfl⟩
    rw [ancestorsFrom, hl, ok_bind]
    cases ht : target? cs base with
    | none => exact ihout howner hrest hpath
    | some found =>
      obtain ⟨target, place⟩ := found
      have hplace := getElem?_of_target? ht
      have hderives : Derives cs home place := ⟨owner, howner, base, hbase, target, ht⟩
      dsimp only
      by_cases hfree : place ∈ free
      · rw [dif_pos hfree]
        have hup := ihup target place hfree memo hplace (fun _ hb => hb) (by
          intro i hi hnot
          by_cases hip : i = place
          · exact hip ▸ .refl
          · exact (hpath i hi fun h => hnot ((List.mem_erase_of_ne hip).2 h)).tail hderives)
        obtain ⟨⟨up, memo₁⟩, hr⟩ : ∃ r, (memo.recall place fun memo =>
            ancestorsFrom cs external (free.erase place) (path ++ [(target, place)]) target memo
              target.bases) = .ok r :=
          Memo.exists_recall hup
        obtain ⟨⟨more, memo₂⟩, hmore⟩ := ihrest memo₁ howner hrest hpath
        rw [hr, ok_bind]
        dsimp only
        rw [hmore, ok_bind]
        exact ⟨_, rfl⟩
      · have hback := hpath place (List.getElem?_eq_some_iff.1 hplace).1 hfree
        exact absurd (Relation.TransGen.tail' hback hderives) (hacyclic place)

theorem ancestors_flattens {memo memo' : Memo} {c : Container} {place : Nat}
    {up : List Container} (hm : memo.Sound cs external) (hc : cs[place]? = some c)
    (h : ancestors cs external memo c place = .ok (up, memo')) :
    Flattens cs external c.bases up ∧ memo'.Sound cs external :=
  Memo.recall_flattens hm hc (fun _ _ => ancestorsFrom_flattens hm) h

theorem exists_ancestors {memo : Memo} {c : Container} {place : Nat}
    (hsettled : ∀ c ∈ cs, ∀ base ∈ c.bases, Settled cs external base)
    (hacyclic : ∀ i, ¬ Relation.TransGen (Derives cs) i i) (hc : cs[place]? = some c) :
    ∃ r, ancestors cs external memo c place = .ok r := by
  refine Memo.exists_recall (exists_ancestorsFrom hsettled hacyclic hc (fun _ hb => hb) ?_)
  intro i hi hnot
  by_cases hip : i = place
  · exact hip ▸ .refl
  · exact absurd ((List.mem_erase_of_ne hip).2 (List.mem_range.2 hi)) hnot

theorem resolveFrom_flattens {memo : Memo} {todo : List (Container × Nat)} {rs : List Resolved}
    (hm : memo.Sound cs external) (htodo : ∀ p ∈ todo, cs[p.2]? = some p.1)
    (h : resolveFrom cs external memo todo = .ok rs) :
    rs.map (·.container) = todo.map Prod.fst ∧
      ∀ r ∈ rs, Flattens cs external r.container.bases r.ancestors := by
  induction todo generalizing memo rs with
  | nil =>
    cases Except.ok.inj h
    simp
  | cons p rest ih =>
    obtain ⟨c, place⟩ := p
    rw [resolveFrom] at h
    obtain ⟨⟨up, memo₁⟩, hup, h⟩ := bind_eq_ok_iff.1 h
    obtain ⟨more, hmore, h⟩ := bind_eq_ok_iff.1 h
    cases Except.ok.inj h
    obtain ⟨hu, hm₁⟩ := ancestors_flattens hm (htodo _ List.mem_cons_self) hup
    obtain ⟨hmap, hall⟩ := ih hm₁ (fun p hp => htodo p (List.mem_cons_of_mem _ hp)) hmore
    refine ⟨by simp [hmap], List.forall_mem_cons.2 ⟨hu, hall⟩⟩

theorem exists_resolveFrom {memo : Memo} {todo : List (Container × Nat)}
    (hsettled : ∀ c ∈ cs, ∀ base ∈ c.bases, Settled cs external base)
    (hacyclic : ∀ i, ¬ Relation.TransGen (Derives cs) i i)
    (htodo : ∀ p ∈ todo, cs[p.2]? = some p.1) :
    ∃ rs, resolveFrom cs external memo todo = .ok rs := by
  induction todo generalizing memo with
  | nil => exact ⟨_, rfl⟩
  | cons p rest ih =>
    obtain ⟨⟨up, memo₁⟩, hup⟩ : ∃ r, ancestors cs external memo p.1 p.2 = .ok r :=
      exists_ancestors hsettled hacyclic (htodo p List.mem_cons_self)
    obtain ⟨more, hmore⟩ : ∃ more, resolveFrom cs external memo₁ rest = .ok more :=
      ih fun p hp => htodo p (List.mem_cons_of_mem _ hp)
    rw [resolveFrom, hup, ok_bind]
    dsimp only
    rw [hmore, ok_bind]
    exact ⟨_, rfl⟩

/-- What resolution gives are the containers with their flattened bases. -/
theorem flattens_of_resolve {rs : List Resolved} (h : resolve cs external = .ok rs) :
    rs.map (·.container) = cs ∧
      ∀ r ∈ rs, Flattens cs external r.container.bases r.ancestors := by
  have hall := resolveFrom_flattens .nil (fun p hp => List.mem_zipIdx_iff_getElem?.1 hp) h
  rwa [List.zipIdx_map_fst] at hall

/-- The ancestors of the resolved container at a place. -/
def ancestorsAt (rs : List Resolved) (place : Nat) : List Container :=
  (rs[place]?.map (·.ancestors)).getD []

/-- A base's share of the ancestors: the container that it means, followed by that one's own
ancestors, or nothing if it is external. -/
def share (cs : List Container) (rs : List Resolved) (base : TypeRef) : List Container :=
  match target? cs base with
  | none => []
  | some (target, place) => target :: ancestorsAt rs place

/-- Flattened bases are the shares of the bases in order. -/
theorem Flattens.eq_flatMap {rs : List Resolved} {bases : List TypeRef} {up : List Container}
    (hmap : rs.map (·.container) = cs)
    (hall : ∀ r ∈ rs, Flattens cs external r.container.bases r.ancestors)
    (h : Flattens cs external bases up) : up = bases.flatMap (share cs rs) := by
  induction h with
  | nil => rfl
  | outside _ ht _ ih => rw [List.flatMap_cons, share, ht, ih, List.nil_append]
  | @inside base rest target place up more _ ht hu _ _ ih =>
    have hplace := getElem?_of_target? ht
    rw [← hmap, List.getElem?_map, Option.map_eq_some_iff] at hplace
    obtain ⟨r, hr, hc⟩ := hplace
    have hup : up = r.ancestors := hu.unique (hc ▸ hall r (List.mem_of_getElem? hr))
    rw [List.flatMap_cons, share, ht, ← ih]
    simp [ancestorsAt, hr, hup]

/-- **Resolution is depth-first flattening.** It succeeds if and only if each base means one
container alone, or none and is external, and no container leads back to itself. Then it keeps the
containers and their order, and the ancestors of each are the shares of its bases. -/
theorem resolve_flattens (cs : List Container) (external : List String) :
    ((∃ rs, resolve cs external = .ok rs) ↔
      (∀ c ∈ cs, ∀ base ∈ c.bases, Settled cs external base) ∧
        ∀ i, ¬ Relation.TransGen (Derives cs) i i) ∧
    ∀ rs, resolve cs external = .ok rs →
      rs.map (·.container) = cs ∧
        ∀ r ∈ rs, r.ancestors = r.container.bases.flatMap (share cs rs) := by
  have htodo : ∀ p ∈ cs.zipIdx, cs[p.2]? = some p.1 := fun p hp =>
    List.mem_zipIdx_iff_getElem?.1 hp
  have hok : ∀ rs, resolve cs external = .ok rs → rs.map (·.container) = cs ∧
      ∀ r ∈ rs, Flattens cs external r.container.bases r.ancestors := fun _ h =>
    flattens_of_resolve h
  refine ⟨⟨?_, ?_⟩, ?_⟩
  · rintro ⟨rs, h⟩
    obtain ⟨hmap, hall⟩ := hok rs h
    have hat : ∀ (c : Container) (place : Nat), cs[place]? = some c →
        ∃ up, Flattens cs external c.bases up := by
      intro c place hc
      rw [← hmap, List.getElem?_map, Option.map_eq_some_iff] at hc
      obtain ⟨r, hr, rfl⟩ := hc
      exact ⟨_, hall r (List.mem_of_getElem? hr)⟩
    constructor
    · intro c hc
      obtain ⟨place, hplace⟩ := List.mem_iff_getElem?.1 hc
      obtain ⟨up, hup⟩ := hat c place hplace
      exact hup.settled
    · intro i hcycle
      obtain ⟨j, ⟨c, hc, -⟩, -⟩ := Relation.TransGen.head'_iff.1 hcycle
      obtain ⟨up, hup⟩ := hat c i hc
      exact hup.acyclic hc hcycle
  · rintro ⟨hsettled, hacyclic⟩
    exact exists_resolveFrom hsettled hacyclic htodo
  · intro rs h
    obtain ⟨hmap, hall⟩ := hok rs h
    exact ⟨hmap, fun r hr => (hall r hr).eq_flatMap hmap hall⟩

/-- A diamond below an external base, with its tip first. -/
def diamond : List Container :=
  let named (name : String) (bases : List String) : Container :=
    { name, kind := .class, fileId := "a.h", position := .start, bases := bases.map .named }
  [named "Tip" ["Left", "game::Right"], named "Left" ["Top"], named "Right" ["Top"],
    named "Top" ["std::enable"]]

theorem resolve_diamond :
    ∃ rs, resolve diamond ["enable"] = .ok rs ∧
      rs.map (fun r => r.ancestors.map (·.name)) =
        [["Left", "Top", "Right", "Top"], ["Top"], ["Top"], []] ∧
      rs.map (·.container) = diamond ∧
      ∀ r ∈ rs, r.ancestors = r.container.bases.flatMap (share diamond rs) := by
  obtain ⟨rs, h, hnames⟩ : ∃ rs, resolve diamond ["enable"] = .ok rs ∧
      rs.map (fun r => r.ancestors.map (·.name)) =
        [["Left", "Top", "Right", "Top"], ["Top"], ["Top"], []] :=
    ⟨_, by cbv, rfl⟩
  exact ⟨rs, h, hnames, (resolve_flattens diamond ["enable"]).2 rs h⟩

end Lineage

end HeaderReflection
