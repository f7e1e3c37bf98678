import HeaderReflection.Proofs.Lineage.Flattening

/-!
# Faults of resolution

* `lookup_genuine`: a base that cannot be looked up is unknown or ambiguous.
* `Walked.isCycle`: a base that leads back to the walked path closes a cycle.
* `ancestorsFrom_genuine`: so each fault of the walk is genuine, since the path that it keeps is
  walked.
* `genuine_of_resolve`: each fault of resolution is genuine.
-/

namespace HeaderReflection

namespace Lineage

/-- A base of the owner means one container alone, the one with this place. -/
def Means (cs : List Container) (owner : Container) (target : Container × Nat) : Prop :=
  ∃ base ∈ owner.bases, cs.countP (bears base.baseName) = 1 ∧ target? cs base = some target

/-- Different containers, under their places, each of which has a base that means the next one. A
base of the last one means the first one. -/
structure IsCycle (cs : List Container) (first : Container × Nat)
    (rest : List (Container × Nat)) : Prop where
  placed : ∀ p ∈ first :: rest, cs[p.2]? = some p.1
  means : List.IsChain (fun p => Means cs p.1) (first :: rest ++ [first])
  nodup : ((first :: rest).map fun p => p.1.name).Nodup

/-- A fault that tells what is wrong with the bases of the containers. -/
inductive Genuine (cs : List Container) (external : List String) : Fault → Prop
  | unknown {owner : Container} {base : TypeRef} (mem : owner ∈ cs) (declared : base ∈ owner.bases)
      (none : ∀ c ∈ cs, c.kind ≠ .enum → c.name ≠ base.baseName)
      (inner : base.baseName ∉ external ∧ base.name ∉ external) :
      Genuine cs external (.unknownBase owner.fileId owner.position owner.name base.name)
  | ambiguous {owner : Container} {base : TypeRef} (mem : owner ∈ cs)
      (declared : base ∈ owner.bases) (several : 2 ≤ cs.countP (bears base.baseName)) :
      Genuine cs external (.ambiguousBase owner.fileId owner.position owner.name base.name
        ((cs.filter (bears base.baseName)).map Container.identity))
  | cyclic {first : Container × Nat} {rest : List (Container × Nat)}
      (cycle : IsCycle cs first rest) :
      Genuine cs external (.cyclicInheritance first.1.fileId first.1.position
        (((first :: rest).map fun p => p.1.name) ++ [first.1.name]))

variable {cs : List Container} {external : List String}

/-! ## Bases that cannot be looked up -/

theorem map_fst_candidates (cs : List Container) (name : String) :
    (candidates cs name).map Prod.fst = cs.filter (bears name) := by
  conv => rhs; rw [← List.zipIdx_map_fst 0 cs, List.filter_map]
  rfl

theorem lookup_genuine {owner : Container} {base : TypeRef} {fault : Fault} (hmem : owner ∈ cs)
    (hbase : base ∈ owner.bases) (h : lookup cs external owner base = .error fault) :
    Genuine cs external fault := by
  have hlength := length_candidates cs base.baseName
  have hmap := map_fst_candidates cs base.baseName
  unfold lookup at h
  generalize candidates cs base.baseName = found at hlength hmap h
  rcases found with _ | ⟨a, _ | ⟨b, rest⟩⟩
  · have hnone : ∀ c ∈ cs, c.kind ≠ .enum → c.name ≠ base.baseName := by
      intro c hc hkind hname
      have hzero := List.countP_eq_zero.1 hlength.symm c hc
      simp [bears, hkind, hname] at hzero
    dsimp only at h
    split at h
    · cases h
    · rename_i hinner
      cases Except.error.inj h
      refine .unknown hmem hbase hnone ?_
      simpa using hinner
  · cases h
  · cases Except.error.inj h
    have hseveral : 2 ≤ cs.countP (bears base.baseName) := by
      rw [← hlength, List.length_cons, List.length_cons]
      omega
    have hgenuine : Genuine cs external _ := .ambiguous hmem hbase hseveral
    rw [← hmap, List.map_map] at hgenuine
    exact hgenuine

/-! ## The path -/

/-- What the walk keeps of its path: each container on it has a base that means the next one, the
last one is the owner of the bases that are walked through, and the places that are not free are
just those of the path. -/
structure Walked (cs : List Container) (free : List Nat) (path : List (Container × Nat))
    (owner : Container) : Prop where
  placed : ∀ p ∈ path, cs[p.2]? = some p.1
  means : List.IsChain (fun p => Means cs p.1) path
  nodup : (path.map Prod.snd).Nodup
  last : ∃ home, path.getLast? = some (owner, home)
  free_nodup : free.Nodup
  taken : ∀ i ∈ path.map Prod.snd, i ∉ free
  covers : ∀ i < cs.length, i ∉ free → i ∈ path.map Prod.snd

theorem Means.placed {owner : Container} {p : Container × Nat} (h : Means cs owner p) :
    cs[p.2]? = some p.1 := by
  obtain ⟨base, -, -, ht⟩ := h
  exact getElem?_of_target? ht

/-- Of the containers that bases mean, no two have the same name. -/
theorem Means.eq_of_name {owner owner' : Container} {p q : Container × Nat} (h : Means cs owner p)
    (h' : Means cs owner' q) (hname : p.1.name = q.1.name) : p = q := by
  obtain ⟨base, -, -, ht⟩ := h
  obtain ⟨base', -, -, ht'⟩ := h'
  unfold target? at ht ht'
  have hbears := List.find?_some ht
  have hbears' := List.find?_some ht'
  simp only [bears, Bool.and_eq_true, decide_eq_true_eq] at hbears hbears'
  rw [← hbears.2, hname, hbears'.2, ht'] at ht
  exact (Option.some.inj ht).symm

theorem exists_of_isChain {α : Type} {r : α → α → Prop} {a : α} {l : List α}
    (h : List.IsChain r (a :: l)) : ∀ b ∈ l, ∃ c, r c b := by
  induction l generalizing a with
  | nil => simp
  | cons b l ih =>
    obtain ⟨hab, hrest⟩ := List.isChain_cons_cons.1 h
    exact List.forall_mem_cons.2 ⟨⟨a, hab⟩, ih hrest⟩

namespace Walked

variable {free : List Nat} {path : List (Container × Nat)} {owner target : Container} {place : Nat}

theorem start {c : Container} (h : cs[place]? = some c) :
    Walked cs ((List.range cs.length).erase place) [(c, place)] c where
  placed := by simpa using h
  means := by simp
  nodup := by simp
  last := ⟨place, rfl⟩
  free_nodup := List.nodup_range.erase _
  taken i hi := by
    rw [List.map_singleton, List.mem_singleton] at hi
    rw [hi]
    exact List.nodup_range.not_mem_erase
  covers i hi hnot := by
    by_cases hplace : i = place
    · simp [hplace]
    · exact absurd ((List.mem_erase_of_ne hplace).2 (List.mem_range.2 hi)) hnot

theorem owner_mem (h : Walked cs free path owner) : owner ∈ cs := by
  obtain ⟨home, hlast⟩ := h.last
  exact List.mem_of_getElem? (h.placed _ (List.mem_of_getLast? hlast))

/-- The path goes on with what a base of its last container means. -/
theorem step (h : Walked cs free path owner) (hmeans : Means cs owner (target, place))
    (hfree : place ∈ free) :
    Walked cs (free.erase place) (path ++ [(target, place)]) target where
  placed p hp := by
    rcases List.mem_append.1 hp with hp | hp
    · exact h.placed p hp
    · rw [List.mem_singleton.1 hp]
      exact hmeans.placed
  means := by
    obtain ⟨home, hlast⟩ := h.last
    refine List.isChain_append.2 ⟨h.means, by simp, ?_⟩
    intro p hp q hq
    rw [hlast] at hp
    cases hp
    cases hq
    exact hmeans
  nodup := by
    rw [List.map_append, List.nodup_append]
    refine ⟨h.nodup, by simp, ?_⟩
    intro i hi j hj
    rw [List.map_singleton, List.mem_singleton] at hj
    rintro rfl
    exact h.taken _ hi (hj ▸ hfree)
  last := ⟨place, by simp⟩
  free_nodup := h.free_nodup.erase _
  taken i hi hmem := by
    rw [List.map_append, List.mem_append] at hi
    rcases hi with hi | hi
    · exact h.taken i hi (List.mem_of_mem_erase hmem)
    · rw [List.map_singleton, List.mem_singleton] at hi
      rw [hi] at hmem
      exact h.free_nodup.not_mem_erase hmem
  covers i hi hnot := by
    by_cases hplace : i = place
    · simp [hplace]
    · rw [List.map_append, List.mem_append]
      exact .inl (h.covers i hi fun hmem => hnot ((List.mem_erase_of_ne hplace).2 hmem))

/-- A base that leads back to the path closes a cycle: it is what the path has from there on. -/
theorem isCycle (h : Walked cs free path owner)
    (hmeans : Means cs owner (target, place)) (htaken : place ∉ free) :
    ∃ rest, path.dropWhile (fun (_, i) => i ≠ place) = (target, place) :: rest ∧
      IsCycle cs (target, place) rest := by
  have hplace : cs[place]? = some target := hmeans.placed
  have hmem := h.covers place (List.getElem?_eq_some_iff.1 hplace).1 htaken
  obtain ⟨before, hsplit⟩ := List.dropWhile_suffix (l := path) fun (_, i) => decide (i ≠ place)
  -- The path is cut at the place, which is on it.
  have hhead := List.head?_dropWhile_not (fun p : Container × Nat => decide (p.2 ≠ place)) path
  cases hring : path.dropWhile (fun (_, i) => decide (i ≠ place)) with
  | nil =>
    obtain ⟨p, hp, hsnd⟩ := List.mem_map.1 hmem
    have hnever := List.dropWhile_eq_nil_iff.1 hring p hp
    simp [hsnd] at hnever
  | cons p rest =>
    rw [hring] at hsplit hhead
    have hring_mem : ∀ q ∈ p :: rest, q ∈ path := fun q hq => hsplit ▸ List.mem_append_right _ hq
    obtain rfl : p = (target, place) := by
      have hsnd : p.2 = place := by simpa using hhead
      have hp := h.placed p (hring_mem p List.mem_cons_self)
      rw [hsnd, hplace] at hp
      exact Prod.ext (Option.some.inj hp).symm hsnd
    have hchain : List.IsChain (fun p => Means cs p.1)
        ((target, place) :: rest ++ [(target, place)]) := by
      obtain ⟨home, hlast⟩ := h.last
      have hpath := h.means
      rw [← hsplit] at hpath
      refine List.isChain_append.2 ⟨(List.isChain_append.1 hpath).2.1, by simp, ?_⟩
      intro q hq r hr
      rw [← hsplit, List.getLast?_append_of_ne_nil _ (by simp), hq] at hlast
      cases hlast
      cases hr
      exact hmeans
    refine ⟨rest, rfl, fun q hq => h.placed q (hring_mem q hq), hchain, ?_⟩
    have hnodup : ((target, place) :: rest).Nodup := by
      have hplaces := h.nodup
      rw [← hsplit, List.map_append] at hplaces
      exact (List.nodup_append.1 hplaces).2.1.of_map _
    refine hnodup.map_on fun q hq r hr hname => ?_
    obtain ⟨_, hq'⟩ := exists_of_isChain hchain q (by simpa [or_comm] using hq)
    obtain ⟨_, hr'⟩ := exists_of_isChain hchain r (by simpa [or_comm] using hr)
    exact hq'.eq_of_name hr' hname

end Walked

/-! ## The walk -/

theorem Memo.recall_eq_error {memo : Memo} {place : Nat} {fault : Fault}
    {find : Memo → Except Fault (List Container × Memo)}
    (h : memo.recall place find = .error fault) : find memo = .error fault := by
  unfold Memo.recall at h
  split at h
  · cases h
  · exact map_eq_error_iff.1 h

/-- Each fault of the walk is genuine. -/
theorem ancestorsFrom_genuine {free : List Nat} {path : List (Container × Nat)}
    {owner : Container} {memo : Memo} {bases : List TypeRef} {fault : Fault}
    (hw : Walked cs free path owner) (hbases : ∀ base ∈ bases, base ∈ owner.bases)
    (h : ancestorsFrom cs external free path owner memo bases = .error fault) :
    Genuine cs external fault := by
  induction free, path, owner, memo, bases using ancestorsFrom.induct with
  | case1 free path owner memo =>
    rw [ancestorsFrom] at h
    cases h
  | case2 free path owner memo base rest ihout ihup ihrest =>
    have hbase := hbases base List.mem_cons_self
    have hrest : ∀ b ∈ rest, b ∈ owner.bases := fun b hb => hbases b (List.mem_cons_of_mem _ hb)
    rw [ancestorsFrom] at h
    rcases bind_eq_error_iff.1 h with hl | ⟨found, hl, h⟩
    · exact lookup_genuine hw.owner_mem hbase hl
    obtain ⟨hsettled, ht⟩ := lookup_eq_ok_iff.1 hl
    rcases found with _ | ⟨target, place⟩
    · exact ihout hw hrest h
    · have hmeans : Means cs owner (target, place) := by
        refine ⟨base, hbase, ?_, ht.symm⟩
        rcases hsettled with hone | ⟨hzero, -⟩
        · exact hone
        · have hmem := List.mem_of_getElem? (getElem?_of_target? ht.symm)
          have hbears := List.find?_some ht.symm
          exact absurd hbears (List.countP_eq_zero.1 hzero target hmem)
      dsimp only at h
      split at h
      · rename_i hfree
        rcases bind_eq_error_iff.1 h with hup | ⟨⟨up, memo₁⟩, -, h⟩
        · exact ihup target place hfree memo (hw.step hmeans hfree) (fun _ hb => hb)
            (Memo.recall_eq_error hup)
        rcases bind_eq_error_iff.1 h with hmore | ⟨_, -, h⟩
        · exact ihrest memo₁ hw hrest hmore
        · cases h
      · rename_i htaken
        obtain ⟨more, hring, hcycle⟩ := hw.isCycle hmeans htaken
        cases Except.error.inj h
        rw [cycleFault, hring]
        exact .cyclic hcycle

theorem resolveFrom_genuine {memo : Memo} {todo : List (Container × Nat)} {fault : Fault}
    (htodo : ∀ p ∈ todo, cs[p.2]? = some p.1)
    (h : resolveFrom cs external memo todo = .error fault) : Genuine cs external fault := by
  induction todo generalizing memo with
  | nil => cases h
  | cons p rest ih =>
    obtain ⟨c, place⟩ := p
    rw [resolveFrom] at h
    rcases bind_eq_error_iff.1 h with hup | ⟨⟨up, memo₁⟩, -, h⟩
    · exact ancestorsFrom_genuine (.start (htodo _ List.mem_cons_self)) (fun _ hb => hb)
        (Memo.recall_eq_error hup)
    rcases bind_eq_error_iff.1 h with hmore | ⟨_, -, h⟩
    · exact ih (fun p hp => htodo p (List.mem_cons_of_mem _ hp)) hmore
    · cases h

/-- **Resolution faults are genuine.** An unknown base is declared by a container, no class or
struct bears its name, and it is not external. An ambiguous base is declared by a container, and
the candidates are all classes and structs that bear its name, two at least, in order. A cycle is
the names of different containers, each with a base that means the next one, and the first name
again. -/
theorem genuine_of_resolve {fault : Fault} (h : resolve cs external = .error fault) :
    Genuine cs external fault :=
  resolveFrom_genuine (fun _ hp => List.mem_zipIdx_iff_getElem?.1 hp) h

/-- A container above a cycle that it is no part of. -/
def detour : List Container :=
  let named (name : String) (bases : List String) : Container :=
    { name, kind := .class, fileId := name ++ ".h", position := .start, bases := bases.map .named }
  [named "Leaf" ["Object", "game::Left"], named "Left" ["Right"], named "Right" ["game::Left"],
    named "Object" []]

theorem genuine_detour :
    resolve detour [] = .error (.cyclicInheritance "Left.h" .start ["Left", "Right", "Left"]) ∧
      Genuine detour [] (.cyclicInheritance "Left.h" .start ["Left", "Right", "Left"]) := by
  have h : resolve detour [] =
      .error (.cyclicInheritance "Left.h" .start ["Left", "Right", "Left"]) := by cbv
  exact ⟨h, genuine_of_resolve h⟩

end Lineage

end HeaderReflection
