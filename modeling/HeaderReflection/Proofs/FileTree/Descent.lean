import HeaderReflection.Proofs.FileTree.Plain

/-!
# Paths that never go up

A path without a step up leads to the names in it, one below the other. In a plain tree its place
and the places on the way to it are all that reading and writing depend on.

* `Path.destination_of_descends`, `Path.mem_waypoints_of_prefix`: the place, and those on the way.
* `Path.destination_parent`: the directory that a path names something in.
* `FileTree.read_congr`: what the reading of a path depends on.
* `FileTree.createDirectories_descends`, `FileTree.replace_descends`: what is created, and where.
-/

namespace HeaderReflection

namespace Path

/-- The path has no step up. -/
def Descends (path : String) : Prop := ".." ∉ segments path

instance (path : String) : Decidable (Descends path) := inferInstanceAs (Decidable (_ ∉ _))

/-- The steps that are names. -/
def namesOf (steps : List String) : Location := steps.filter fun s => !isIdle s

theorem namesOf_cons_idle {step : String} (h : isIdle step = true) (rest : List String) :
    namesOf (step :: rest) = namesOf rest := by
  simp [namesOf, h]

theorem namesOf_cons_name {step : String} (h : isIdle step = false) (rest : List String) :
    namesOf (step :: rest) = step :: namesOf rest := by
  simp [namesOf, h]

theorem stepFrom_idle {step : String} (h : isIdle step = true) (here : Location) :
    stepFrom here step = here := if_pos h

theorem stepFrom_name {step : String} (h : isIdle step = false) (hup : step ≠ "..")
    (here : Location) : stepFrom here step = here ++ [step] := by
  rw [stepFrom, if_neg (by simpa [isIdle] using h), if_neg hup]

section Steps

variable {here m : Location} {steps : List String} (h : ".." ∉ steps)

include h

theorem foldl_stepFrom : steps.foldl stepFrom here = here ++ namesOf steps := by
  induction steps generalizing here with
  | nil => simp [namesOf]
  | cons step rest ih =>
    have hup := List.ne_of_not_mem_cons h
    have hrest := List.not_mem_of_not_mem_cons h
    rw [List.foldl_cons, ih hrest]
    cases hi : isIdle step with
    | true => rw [stepFrom_idle hi, namesOf_cons_idle hi]
    | false => simp [stepFrom_name hi (Ne.symm hup), namesOf_cons_name hi]

/-- The steps start from places between the first and the last one. -/
theorem prefix_of_mem_starts (hm : m ∈ starts here steps) :
    here <+: m ∧ m <+: here ++ namesOf steps := by
  induction steps generalizing here with
  | nil => cases hm
  | cons step rest ih =>
    have hup := List.ne_of_not_mem_cons h
    have hrest := List.not_mem_of_not_mem_cons h
    rcases List.mem_cons.1 hm with rfl | hm
    · exact ⟨List.prefix_rfl, List.prefix_append ..⟩
    · obtain ⟨hfrom, hto⟩ := ih hrest hm
      cases hi : isIdle step with
      | true => exact ⟨stepFrom_idle hi here ▸ hfrom, by rwa [stepFrom_idle hi,
          ← namesOf_cons_idle hi] at hto⟩
      | false =>
        rw [stepFrom_name hi (Ne.symm hup)] at hfrom hto
        rw [namesOf_cons_name hi, List.append_cons]
        exact ⟨(List.prefix_append ..).trans hfrom, hto⟩

/-- The steps start from all places on the way to the last one. -/
theorem mem_starts_of_prefix (hfrom : here <+: m) (hto : m <+: here ++ namesOf steps)
    (hne : m ≠ here ++ namesOf steps) : m ∈ starts here steps := by
  induction steps generalizing here with
  | nil =>
    rw [namesOf, List.filter_nil, List.append_nil] at hto hne
    exact absurd (hto.eq_of_length (Nat.le_antisymm hto.length_le hfrom.length_le)) hne
  | cons step rest ih =>
    have hup := List.ne_of_not_mem_cons h
    have hrest := List.not_mem_of_not_mem_cons h
    by_cases hm : m = here
    · exact hm ▸ List.mem_cons_self
    · refine List.mem_cons_of_mem _ ?_
      cases hi : isIdle step with
      | true =>
        rw [namesOf_cons_idle hi] at hto hne
        rw [stepFrom_idle hi]
        exact ih hrest hfrom hto hne
      | false =>
        rw [namesOf_cons_name hi, List.append_cons] at hto hne
        rw [stepFrom_name hi (Ne.symm hup)]
        refine ih hrest ?_ hto hne
        -- A place below the first one that leads to the last one begins with the step's name.
        obtain ⟨below, rfl⟩ := hfrom
        cases below with
        | nil => exact absurd (List.append_nil here) hm
        | cons s below =>
          rw [List.append_assoc, List.prefix_append_right_inj] at hto
          obtain ⟨rfl, -⟩ := List.cons_prefix_cons.1 hto
          exact ⟨below, (List.append_cons ..).symm⟩

end Steps

section Paths

variable {path : String} (h : Descends path)

include h

theorem destination_of_descends : destination path = namesOf (segments path) :=
  (foldl_stepFrom h).trans (List.nil_append _)

theorem prefix_of_mem_waypoints {m : Location} (hm : m ∈ waypoints path) :
    m <+: destination path :=
  destination_of_descends h ▸ (prefix_of_mem_starts h hm).2

theorem mem_waypoints_of_prefix {m : Location} (hm : m <+: destination path)
    (hne : m ≠ destination path) : m ∈ waypoints path := by
  rw [destination_of_descends h] at hm hne
  exact mem_starts_of_prefix h List.nil_prefix hm hne

/-- A path goes through its own place just if its last step is no name. -/
theorem destination_mem_waypoints_iff {s : String} (hs : (segments path).getLast? = some s) :
    destination path ∈ waypoints path ↔ isIdle s = true := by
  obtain ⟨init, hseg⟩ := List.getLast?_eq_some_iff.1 hs
  have hup : ".." ∉ init := fun hm => h (by simp [hseg, hm])
  have hne : s ≠ ".." := fun he => h (by simp [hseg, he])
  have hdest : destination path = stepFrom (namesOf init) s := by
    rw [destination, hseg, List.foldl_append, foldl_stepFrom hup]
    rfl
  have hway : waypoints path = starts [] init ++ [namesOf init] := by
    rw [waypoints, hseg, starts_append, foldl_stepFrom hup]
    rfl
  rw [hdest, hway]
  constructor
  · intro hm
    by_contra hi
    rw [stepFrom_name (by simpa using hi) hne] at hm
    have hle : (namesOf init ++ [s]).length ≤ (namesOf init).length := by
      rcases List.mem_append.1 hm with hm | hm
      · exact (prefix_of_mem_starts hup hm).2.length_le
      · exact Nat.le_of_eq (congrArg List.length (List.mem_singleton.1 hm))
    rw [List.length_append, List.length_singleton] at hle
    exact Nat.not_succ_le_self _ hle
  · intro hi
    rw [stepFrom_idle hi]
    simp

end Paths

/-! ## Parents -/

theorem dropIdle_suffix (steps : List String) : dropIdle steps <:+ steps := by
  fun_induction dropIdle steps with
  | case1 => exact List.suffix_rfl
  | case2 => exact List.nil_suffix
  | case3 => exact List.suffix_rfl
  | case4 s rest _ _ ih => exact ih.trans (List.suffix_cons ..)
  | case5 => exact List.suffix_rfl

theorem namesOf_dropIdle (steps : List String) : namesOf (dropIdle steps) = namesOf steps := by
  fun_induction dropIdle steps with
  | case1 => rfl
  | case2 => rfl
  | case3 => rfl
  | case4 s rest _ hi ih => rw [ih, namesOf_cons_idle hi]
  | case5 => rfl

theorem namesOf_dropWhile (steps : List String) :
    namesOf (steps.dropWhile isIdle) = namesOf steps := by
  induction steps with
  | nil => rfl
  | cons s rest ih =>
    cases hi : isIdle s with
    | true => rw [List.dropWhile_cons_of_pos hi, ih, namesOf_cons_idle hi]
    | false => rw [List.dropWhile_cons_of_neg (by simp [hi])]

theorem namesOf_reverse (steps : List String) :
    namesOf steps.reverse = (namesOf steps).reverse := by
  simp [namesOf]

/-- What is left of reversed steps once the last name is taken away. -/
theorem namesOf_tail {s : String} {rest : List String} (h : isIdle s = true → rest = []) :
    namesOf rest = (namesOf (s :: rest)).tail := by
  cases hi : isIdle s with
  | true =>
    rw [h hi, namesOf_cons_idle hi]
    rfl
  | false => rw [namesOf_cons_name hi, List.tail_cons]

/-- The first step that is left is a name, unless it is the only one. -/
theorem dropIdle_cons {steps rest : List String} {s : String} (h : dropIdle steps = s :: rest) :
    isIdle s = true → rest = [] := by
  fun_induction dropIdle steps with
  | case1 => cases h
  | case2 => cases h
  | case3 => exact fun _ => (List.cons.inj h).2.symm
  | case4 _ _ _ _ ih => exact ih h
  | case5 r rest' _ hi =>
    obtain ⟨rfl, -⟩ := List.cons.inj h
    exact fun hs => absurd hs hi

theorem segments_of_isAbsolute {path : String} (h : isAbsolute path = true) :
    segments path = "" :: (segments path).drop 1 := by
  cases hl : path.toList with
  | nil => simp [isAbsolute, hl] at h
  | cons c cs =>
    obtain rfl : c = '/' := by simpa [isAbsolute, hl] using h
    simp [segments, hl, splitSlashes]

section Parents

variable {path : String} (h : Descends path)

include h

/-- Some reversed steps of the path, with slashes between them, are read back. -/
theorem destination_intercalate {steps : List String} (hs : steps ⊆ segments path) :
    Descends ("/".intercalate steps.reverse) ∧
      destination ("/".intercalate steps.reverse) = (namesOf steps).reverse := by
  by_cases hn : steps = []
  · rw [hn]
    exact ⟨by decide, rfl⟩
  · have hseg : segments ("/".intercalate steps.reverse) = steps.reverse :=
      segments_intercalate (fun s hm => segments_no_slash (hs (List.mem_reverse.1 hm)))
        (by simpa using hn)
    have hd : Descends ("/".intercalate steps.reverse) := by
      rw [Descends, hseg, List.mem_reverse]
      exact fun hm => h (hs hm)
    exact ⟨hd, by rw [destination_of_descends hd, hseg, namesOf_reverse]⟩

omit h in
theorem destination_slash (path : String) : destination ("/" ++ path) = destination path := by
  have hseg := segments_append_slash "" path
  rw [String.empty_append] at hseg
  rw [destination, hseg]
  rfl

omit h in
theorem descends_slash_iff : Descends ("/" ++ path) ↔ Descends path := by
  have hseg := segments_append_slash "" path
  rw [String.empty_append] at hseg
  rw [Descends, hseg]
  simp [Descends, segments, splitSlashes]

/-- Reversed steps of the path without the first one lead to the directory of its name, be it with
or without the idle ones that come next. -/
theorem destination_tail {s : String} {rest kept : List String}
    (hsub : s :: rest ⊆ segments path) (hidle : isIdle s = true → rest = [])
    (hnames : namesOf (s :: rest) = (namesOf (segments path)).reverse)
    (hkept : kept ⊆ rest) (hsame : namesOf kept = namesOf rest) :
    Descends ("/".intercalate kept.reverse) ∧
      destination ("/".intercalate kept.reverse) = (destination path).dropLast := by
  obtain ⟨hup, hplace⟩ :=
    destination_intercalate h
      (List.Subset.trans hkept (List.Subset.trans (List.subset_cons_self s rest) hsub))
  refine ⟨hup, ?_⟩
  rw [hplace, hsame, namesOf_tail hidle, hnames, List.tail_reverse, List.reverse_reverse,
    destination_of_descends h]

/-- What is left of a path without its last name leads to the directory of that name. -/
theorem destination_parent {d : String} (hd : parent? path = some d) :
    Descends d ∧ destination d = (destination path).dropLast := by
  unfold parent? at hd
  split at hd
  · rename_i habs
    split at hd
    · cases hd
    · rename_i s rest hrest
      obtain rfl := Option.some.inj hd
      rw [descends_slash_iff, destination_slash]
      have hfirst := List.head?_dropWhile_not isIdle ((segments path).drop 1).reverse
      rw [hrest] at hfirst
      have hfirst : isIdle s = false := by simpa using hfirst
      have hsub : s :: rest ⊆ segments path := by
        rw [← hrest]
        exact fun x hx => List.mem_of_mem_drop (List.mem_reverse.1 (List.dropWhile_subset _ hx))
      have hnames : namesOf (s :: rest) = (namesOf (segments path)).reverse := by
        rw [← hrest, namesOf_dropWhile, namesOf_reverse]
        conv_rhs => rw [segments_of_isAbsolute habs, namesOf_cons_idle rfl]
      exact destination_tail h hsub (by simp [hfirst]) hnames (List.dropWhile_subset _)
        (namesOf_dropWhile rest)
  · split at hd
    · cases hd
    · rename_i s rest hrest
      obtain rfl := Option.some.inj hd
      have hsub : s :: rest ⊆ segments path := by
        rw [← hrest]
        exact fun x hx => List.mem_reverse.1 ((dropIdle_suffix _).subset hx)
      have hnames : namesOf (s :: rest) = (namesOf (segments path)).reverse := by
        rw [← hrest, namesOf_dropIdle, namesOf_reverse]
      exact destination_tail h hsub (dropIdle_cons hrest) hnames (dropIdle_suffix rest).subset
        (namesOf_dropIdle rest)

theorem destination_of_parent_eq_none (hn : parent? path = none) : destination path = [] := by
  rw [destination_of_descends h]
  unfold parent? at hn
  split at hn
  · rename_i habs
    split at hn
    · rename_i hrest
      have hnames := namesOf_dropWhile ((segments path).drop 1).reverse
      rw [hrest, namesOf_reverse] at hnames
      rw [segments_of_isAbsolute habs, namesOf_cons_idle rfl]
      exact List.reverse_eq_nil_iff.1 hnames.symm
    · cases hn
  · split at hn
    · rename_i hrest
      have hnames := namesOf_dropIdle (segments path).reverse
      rw [hrest, namesOf_reverse] at hnames
      exact List.reverse_eq_nil_iff.1 hnames.symm
    · cases hn

end Parents

end Path

namespace FileTree

open HeaderReflection.Path (Descends IsName destination isIdle namesOf segments starts stepFrom
  waypoints)

variable {t t' : FileTree}

/-! ## Reading -/

theorem read_empty (t : FileTree) : t.read "" = .error .notFound := rfl

section Reads

variable (h : t.IsPlain)

include h

/-- A file on the way stops a walk. -/
theorem walk_of_file (follow : Bool) (links : Nat) {here m : Location} {steps : List String}
    (hup : ".." ∉ steps) (hm : m ∈ starts here steps) {content : ByteArray}
    (hc : t.find? m = some (.file content)) :
    t.walk follow links here steps = .error .notDirectory := by
  induction steps generalizing here with
  | nil => cases hm
  | cons step rest ih =>
    obtain ⟨⟨below, rfl⟩, -⟩ := Path.prefix_of_mem_starts hup hm
    rw [walk_cons h]
    by_cases hb : below = []
    · rw [hb, List.append_nil] at hc
      rw [hc]
    · rw [h.ancestor hb hc]
      refine ih (List.not_mem_of_not_mem_cons hup) ?_
      exact (List.mem_cons.1 hm).resolve_left (by simpa using hb)

variable {path : String}

theorem read_of_blocked (hp : Descends path) {m : Location} (hm : m ∈ waypoints path)
    {content : ByteArray} (hc : t.find? m = some (.file content)) :
    t.read path = .error .notDirectory := by
  have hne : path ≠ "" := by
    rintro rfl
    obtain rfl : m = [] := by simpa [waypoints, segments, Path.splitSlashes, starts] using hm
    cases hc
  rw [read, get?, locate, if_neg hne, walk_of_file h true linkLimit hp hm hc]
  rfl

theorem read_of_missing (hfree : ∀ m ∈ waypoints path, ∀ c, t.find? m ≠ some (.file c))
    (hn : t.find? (destination path) = none) : t.read path = .error .notFound := by
  by_cases hne : path = ""
  · exact hne ▸ rfl
  rw [read, get?, locate, if_neg hne]
  by_cases hall : ∀ m ∈ waypoints path, t.find? m = some .directory
  · rw [(walk_eq_ok_iff h true linkLimit).2 ⟨rfl, hall⟩, ok_bind]
    rw [destination] at hn
    rw [hn]
    rfl
  · have hmissing : ∃ m ∈ waypoints path, t.find? m = none := by
      simp only [not_forall] at hall
      obtain ⟨m, hm, hd⟩ := hall
      refine ⟨m, hm, ?_⟩
      rcases hf : t.find? m with _ | _ | _ | target
      · rfl
      · exact absurd hf (hfree m hm _)
      · exact absurd hf hd
      · exact absurd hf (h.find?_ne_link m target)
    rw [walk_of_missing h true linkLimit hfree hmissing]
    rfl

theorem reaches_of_descends (hp : Descends path) (hne : path ≠ "")
    (hfree : ∀ m ∈ waypoints path, ∀ c, t.find? m ≠ some (.file c)) {e : Entry}
    (he : t.find? (destination path) = some e) : t.Reaches path := by
  refine ⟨hne, fun m hm => ?_⟩
  obtain ⟨below, hb⟩ := Path.prefix_of_mem_waypoints hp hm
  rw [← hb] at he
  by_cases hn : below = []
  · rw [hn, List.append_nil] at he
    cases e with
    | file content => exact absurd he (hfree m hm content)
    | directory => exact he
    | link target => exact absurd he (h.find?_ne_link m target)
  · exact h.ancestor hn he

theorem read_of_directory (hr : t.Reaches path)
    (hd : t.find? (destination path) = some .directory) : t.read path = .error .isDirectory := by
  rw [read, (get?_eq_ok_iff h).2 ⟨hr, rfl, hd⟩]
  rfl

/-- What the reading of a path depends on: the files on the way, and what stands at its place. -/
theorem read_congr (h' : t'.IsPlain) (hp : Descends path)
    (hway : ∀ m ∈ waypoints path, ∀ c,
      t'.find? m = some (.file c) ↔ t.find? m = some (.file c))
    (hplace : t'.find? (destination path) = t.find? (destination path)) :
    t'.read path = t.read path := by
  by_cases hblocked : ∃ m ∈ waypoints path, ∃ c, t.find? m = some (.file c)
  · obtain ⟨m, hm, c, hc⟩ := hblocked
    rw [read_of_blocked h hp hm hc, read_of_blocked h' hp hm ((hway m hm c).2 hc)]
  · have hfree : ∀ m ∈ waypoints path, ∀ c, t.find? m ≠ some (.file c) :=
      fun m hm c hc => hblocked ⟨m, hm, c, hc⟩
    have hfree' : ∀ m ∈ waypoints path, ∀ c, t'.find? m ≠ some (.file c) :=
      fun m hm c hc => hfree m hm c ((hway m hm c).1 hc)
    by_cases hne : path = ""
    · rw [hne, read_empty, read_empty]
    rcases hf : t.find? (destination path) with _ | content | _ | target
    · rw [read_of_missing h hfree hf, read_of_missing h' hfree' (hplace.trans hf)]
    · have hf' := hplace.trans hf
      rw [(read_eq_ok_iff h).2 ⟨reaches_of_descends h hp hne hfree hf, hf⟩,
        (read_eq_ok_iff h').2 ⟨reaches_of_descends h' hp hne hfree' hf', hf'⟩]
    · have hf' := hplace.trans hf
      rw [read_of_directory h (reaches_of_descends h hp hne hfree hf) hf,
        read_of_directory h' (reaches_of_descends h' hp hne hfree' hf') hf']
    · exact absurd hf (h.find?_ne_link _ target)

/-- A path that is not found has no file on the way, and nothing at its place. -/
theorem free_of_read (hp : Descends path) (hne : path ≠ "")
    (hr : t.read path = .error .notFound) :
    (∀ m ∈ waypoints path, ∀ c, t.find? m ≠ some (.file c)) ∧
      t.find? (destination path) = none := by
  have hfree : ∀ m ∈ waypoints path, ∀ c, t.find? m ≠ some (.file c) := by
    intro m hm c hc
    rw [read_of_blocked h hp hm hc] at hr
    cases hr
  refine ⟨hfree, ?_⟩
  rcases hf : t.find? (destination path) with _ | content | _ | target
  · rfl
  · rw [(read_eq_ok_iff h).2 ⟨reaches_of_descends h hp hne hfree hf, hf⟩] at hr
    cases hr
  · rw [read_of_directory h (reaches_of_descends h hp hne hfree hf) hf] at hr
    cases hr
  · exact absurd hf (h.find?_ne_link _ target)

end Reads

/-! ## Writing -/

section Writes

variable (h : t.IsPlain)

include h

/-- Where no file is in the way, all directories on the way are created. -/
theorem makeDirectories_descends (links : Nat) {here : Location}
    (hd : t.find? here = some .directory) {steps : List String}
    (hs : ∀ s ∈ steps, '/' ∉ s.toList) (hup : ".." ∉ steps)
    (hfree : ∀ m, m <+: here ++ namesOf steps → ∀ c, t.find? m ≠ some (.file c)) :
    ∃ t', t.makeDirectories links here steps = .ok t' ∧
      ∀ m, t'.find? m = if m <+: here ++ namesOf steps then some .directory else t.find? m := by
  induction steps generalizing t here with
  | nil =>
    refine ⟨t, by rw [makeDirectories], fun m => ?_⟩
    split
    · rename_i hm
      obtain ⟨below, hb⟩ : m <+: here := by simpa [namesOf] using hm
      by_cases hn : below = []
      · rwa [← hb, hn, List.append_nil] at hd
      · exact h.ancestor hn (hb ▸ hd)
    · rfl
  | cons step rest ih =>
    obtain ⟨hstep, hrest⟩ := List.forall_mem_cons.1 hs
    have hne := Ne.symm (List.ne_of_not_mem_cons hup)
    have hup := List.not_mem_of_not_mem_cons hup
    rcases step_cases hstep with hstay | hname
    · have hi := hstay.resolve_right hne
      rw [Path.namesOf_cons_idle hi] at hfree ⊢
      rw [makeDirectories_stay t links here hstay, Path.stepFrom_idle hi]
      exact ih h hd hrest hup hfree
    · have hi : isIdle step = false := by simp [isIdle, hname.ne_empty, hname.ne_here]
      have hnames : here ++ namesOf (step :: rest) = here ++ [step] ++ namesOf rest := by
        rw [Path.namesOf_cons_name hi, List.append_cons]
      rw [hnames] at hfree
      rw [makeDirectories_name h links here hname]
      simp only [hnames]
      rcases hf : t.find? (here ++ [step]) with _ | content | _ | target
      · have hn : here ++ [step] ≠ [] := by simp
        have hp := h.insert (e := .directory) hname hd (by simp) (by simp [hf])
        have hfree' : ∀ m, m <+: here ++ [step] ++ namesOf rest → ∀ c,
            (t.insert (here ++ [step]) .directory).find? m ≠ some (.file c) := by
          intro m hm c
          by_cases he : m = here ++ [step]
          · simp [he, find?_insert_same hn]
          · rw [find?_insert_other he]
            exact hfree m hm c
        obtain ⟨t', ht', hfind⟩ := ih hp (find?_insert_same hn) hrest hup hfree'
        refine ⟨t', ht', fun m => ?_⟩
        rw [hfind]
        split
        · rfl
        · rename_i hm
          exact find?_insert_other fun he => hm (he ▸ List.prefix_append ..)
      · exact absurd hf (hfree _ (List.prefix_append ..) content)
      · exact ih h hf hrest hup hfree
      · exact absurd hf (h.find?_ne_link _ _)

theorem createDirectories_descends {directory : String} (hp : Descends directory)
    (hfree : ∀ m, m <+: destination directory → ∀ c, t.find? m ≠ some (.file c)) :
    ∃ t', t.createDirectories directory = .ok t' ∧ t'.IsPlain ∧
      ∀ m, t'.find? m = if m <+: destination directory then some .directory else t.find? m := by
  have hs : ∀ s ∈ segments directory, '/' ∉ s.toList := fun s hs => Path.segments_no_slash hs
  rw [Path.destination_of_descends hp] at hfree ⊢
  obtain ⟨t', ht', hfind⟩ := makeDirectories_descends h linkLimit (find?_top t) hs hp
    (by simpa using hfree)
  have hplain := (createDirectories_plain h directory).1
  rw [createDirectories, ht'] at hplain
  exact ⟨t', ht', hplain, by simpa using hfind⟩

/-- Why no file can be put where a path leads, as far as its text tells. -/
def replaceError? (path : String) : Option FileError :=
  if path = "" then some .notFound
  else if (segments path).getLast? = some "" then some .notDirectory
  else if (segments path).getLast? = some "." then some .notFound else none

/-- Where the directories on the way are there, and nothing or a file at the end, a file is put in
place if the path ends in a name. -/
theorem replace_descends {path : String} (hp : Descends path) (content : ByteArray)
    (hway : ∀ m, m <+: destination path → m ≠ destination path → t.find? m = some .directory)
    (hplace : path ≠ "" → t.find? (destination path) = none ∨
      destination path ∉ waypoints path ∧ t.find? (destination path) ≠ some .directory) :
    t.replace path content =
      match replaceError? path with
      | some e => .error e
      | none => .ok (t.insert (destination path) (.file content)) := by
  by_cases hne : path = ""
  · rw [hne]
    rfl
  have hplace := hplace hne
  obtain ⟨s, hs⟩ : ∃ s, (segments path).getLast? = some s :=
    ⟨_, List.getLast?_eq_some_getLast (Path.segments_ne_nil path)⟩
  have hup : s ≠ ".." := fun he => hp (he ▸ List.mem_of_getLast? hs)
  have hlast := Path.destination_mem_waypoints_iff hp hs
  simp only [replace, replaceError?, hs, hne, hup, Option.some.injEq, ne_eq, not_false_eq_true,
    decide_true, Bool.true_and, if_false, decide_false, Bool.or_false, decide_eq_true_eq]
  by_cases hempty : s = ""
  · simp [hempty]
    rfl
  by_cases hhere : s = "."
  · -- The path goes through its own place, where nothing is.
    have hm := hlast.2 (by simp [isIdle, hhere])
    have hn : t.find? (destination path) = none := hplace.resolve_right fun hf => hf.1 hm
    have hfree : ∀ m ∈ waypoints path, ∀ c, t.find? m ≠ some (.file c) := by
      intro m hm c hc
      by_cases he : m = destination path
      · rw [he, hn] at hc
        cases hc
      · rw [hway m (Path.prefix_of_mem_waypoints hp hm) he] at hc
        cases hc
    simp [hhere, locate, hne, walk_of_missing h false linkLimit hfree ⟨_, hm, hn⟩]
  · have hm : destination path ∉ waypoints path := by simp [hlast, isIdle, hempty, hhere]
    have hfree : t.find? (destination path) ≠ some .directory := by
      rcases hplace with hn | ⟨-, hd⟩
      · simp [hn]
      · exact hd
    have hlocate : t.locate false path = .ok (destination path) :=
      (locate_eq_ok_iff h false).2 ⟨⟨hne, fun m hw => hway m
        (Path.prefix_of_mem_waypoints hp hw) fun he => hm (he ▸ hw)⟩, rfl⟩
    simp only [hempty, hhere, if_false, hlocate, ok_bind]
    rfl

end Writes

end FileTree

end HeaderReflection
