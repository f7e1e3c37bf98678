import HeaderReflection.FileTree.Basic

/-!
# Where paths lead

In a tree without links a path leads to a place that its text alone determines. On the way it goes
through places that have to be directories.

* `Path.destination_join`, `Path.mem_waypoints_join`: a further name goes one place further down.
* `FileTree.destination_pathBelow`: so do several names.
* `Path.segments_names`: names with slashes between them are read back.
-/

namespace HeaderReflection

namespace Path

/-- A name that a directory can hold. -/
structure IsName (s : String) : Prop where
  ne_empty : s ≠ ""
  ne_here : s ≠ "."
  ne_up : s ≠ ".."
  no_slash : '/' ∉ s.toList

instance (s : String) : Decidable (IsName s) :=
  decidable_of_iff (s ≠ "" ∧ s ≠ "." ∧ s ≠ ".." ∧ '/' ∉ s.toList)
    ⟨fun ⟨h₁, h₂, h₃, h₄⟩ => ⟨h₁, h₂, h₃, h₄⟩, fun h => ⟨h.1, h.2, h.3, h.4⟩⟩

/-- The place that a step leads to from a place. -/
def stepFrom (here : Location) (step : String) : Location :=
  if step = "" || step = "." then here else if step = ".." then here.dropLast else here ++ [step]

/-- The place that a path leads to. -/
def destination (path : String) : Location :=
  (segments path).foldl stepFrom []

/-- The places that steps start from. -/
def starts (here : Location) : List String → List Location
  | [] => []
  | step :: rest => here :: starts (stepFrom here step) rest

/-- The places that a path goes through. -/
def waypoints (path : String) : List Location :=
  starts [] (segments path)

theorem IsName.not_idle {s : String} (h : IsName s) : ¬(s = "" || s = ".") = true := by
  simp [h.ne_empty, h.ne_here]

theorem IsName.stepFrom {s : String} (h : IsName s) (here : Location) :
    stepFrom here s = here ++ [s] := by
  simp [Path.stepFrom, h.ne_empty, h.ne_here, h.ne_up]

theorem stepFrom_empty (here : Location) : stepFrom here "" = here := rfl

theorem starts_append (here : Location) (xs ys : List String) :
    starts here (xs ++ ys) = starts here xs ++ starts (xs.foldl stepFrom here) ys := by
  induction xs generalizing here with
  | nil => rfl
  | cons x xs ih => simp [starts, ih]

/-! ## Segments -/

theorem splitSlashes_append_slash (part xs ys : List Char) :
    splitSlashes part (xs ++ '/' :: ys) = splitSlashes part xs ++ splitSlashes [] ys := by
  induction xs generalizing part with
  | nil => simp [splitSlashes]
  | cons c xs ih =>
    by_cases hc : c = '/' <;> simp [splitSlashes, hc, ih]

theorem splitSlashes_of_not_mem {part xs : List Char} (h : '/' ∉ xs) :
    splitSlashes part xs = [part.reverse ++ xs] := by
  induction xs generalizing part with
  | nil => simp [splitSlashes]
  | cons c xs ih =>
    have hc : c ≠ '/' := fun hc => h (hc ▸ List.mem_cons_self)
    simp [splitSlashes, hc, ih (fun hm => h (List.mem_cons_of_mem _ hm))]

theorem segments_ne_nil (path : String) : segments path ≠ [] := by
  have parts (part xs : List Char) : splitSlashes part xs ≠ [] := by
    induction xs generalizing part with
    | nil => simp [splitSlashes]
    | cons c xs ih => by_cases hc : c = '/' <;> simp [splitSlashes, hc, ih]
  simp [segments, parts]

theorem segments_append_slash (x y : String) :
    segments (x ++ "/" ++ y) = segments x ++ segments y := by
  have h : (x ++ "/" ++ y).toList = x.toList ++ '/' :: y.toList := by simp
  rw [segments, h, splitSlashes_append_slash, List.map_append, segments, segments]

theorem segments_of_no_slash {s : String} (h : '/' ∉ s.toList) : segments s = [s] := by
  rw [segments, splitSlashes_of_not_mem h]
  simp

theorem segments_no_slash {path s : String} (h : s ∈ segments path) : '/' ∉ s.toList := by
  have parts (part xs : List Char) (hp : '/' ∉ part) : ∀ p ∈ splitSlashes part xs, '/' ∉ p := by
    induction xs generalizing part with
    | nil => simpa [splitSlashes] using hp
    | cons c xs ih =>
      by_cases hc : c = '/'
      · simp only [splitSlashes, hc, if_true, List.forall_mem_cons, List.mem_reverse]
        exact ⟨hp, ih [] (by simp)⟩
      · simp only [splitSlashes, hc, if_false]
        exact ih (c :: part) (by simp [Ne.symm hc, hp])
  obtain ⟨p, hp, rfl⟩ := List.mem_map.1 h
  simpa using parts [] path.toList (by simp) p hp

/-! ## Paths behind one another -/

/-- What stands in a joined path before the second one: nothing, or a text that ends in a slash. -/
theorem join_cases (base : String) :
    (base = "" ∧ ∀ s, isAbsolute s = false → join base s = s) ∨
    ∃ b, (base = b ∨ base = b ++ "/" ++ "") ∧
      ∀ s, isAbsolute s = false → join base s = b ++ "/" ++ s := by
  by_cases he : base = ""
  · exact .inl ⟨he, fun s h => by simp [join, h, he]⟩
  by_cases hl : base.toList.getLast? = some '/'
  · obtain ⟨cs, hcs⟩ := List.getLast?_eq_some_iff.1 hl
    have hb : base = String.ofList cs ++ "/" := by
      rw [← String.toList_inj, hcs]
      simp
    refine .inr ⟨String.ofList cs, .inr (hb.trans String.append_empty.symm), fun s h => ?_⟩
    rw [join, h, hl, hb]
    simp
  · exact .inr ⟨base, .inl rfl, fun s h => by simp [join, h, he, hl]⟩

theorem segments_join (base : String) {s : String} (h : isAbsolute s = false) :
    ∃ xs, (segments base = xs ∨ segments base = xs ++ [""]) ∧
      segments (join base s) = xs ++ segments s := by
  have hn : segments "" = [""] := rfl
  rcases join_cases base with ⟨rfl, hj⟩ | ⟨b, rfl | rfl, hj⟩
  · exact ⟨[], .inr hn, by simp [hj s h]⟩
  · exact ⟨_, .inl rfl, by rw [hj s h, segments_append_slash]⟩
  · exact ⟨_, .inr (by rw [segments_append_slash, hn]), by rw [hj s h, segments_append_slash]⟩

theorem IsName.isAbsolute {s : String} (h : IsName s) : isAbsolute s = false := by
  have hs := h.no_slash
  cases hl : s.toList with
  | nil => simp [Path.isAbsolute, hl]
  | cons c cs =>
    rw [hl] at hs
    simp [Path.isAbsolute, hl, Ne.symm (List.ne_of_not_mem_cons hs)]

/-- A further name goes one place further down. -/
theorem destination_join (base : String) {s : String} (h : IsName s) :
    destination (join base s) = destination base ++ [s] := by
  obtain ⟨xs, hb, hj⟩ := segments_join base h.isAbsolute
  rw [destination, destination, hj, segments_of_no_slash h.no_slash]
  rcases hb with hb | hb <;> simp [hb, h.stepFrom, stepFrom_empty]

/-- On the way to a further name, a path goes through the place that it led to before. -/
theorem mem_waypoints_join (base : String) {s : String} (h : IsName s) {l : Location} :
    l ∈ waypoints (join base s) ↔ l ∈ waypoints base ∨ l = destination base := by
  obtain ⟨xs, hb, hj⟩ := segments_join base h.isAbsolute
  rw [waypoints, waypoints, destination, hj, segments_of_no_slash h.no_slash]
  rcases hb with hb | hb <;> simp [hb, starts_append, starts, stepFrom_empty]

theorem join_of_no_slash {x y : String} (hne : x ≠ "") (hl : x.toList.getLast? ≠ some '/')
    (hy : isAbsolute y = false) : join x y = x ++ "/" ++ y := by
  simp [join, hy, hne, hl]

/-- Paths can be put behind one another in either order. -/
theorem join_join (base : String) {x y : String} (hx : isAbsolute x = false)
    (hne : x ≠ "") (hl : x.toList.getLast? ≠ some '/') (hy : isAbsolute y = false) :
    join (join base x) y = join base (join x y) := by
  have habs : isAbsolute (x ++ "/" ++ y) = false := by
    cases hc : x.toList with
    | nil => exact absurd (String.toList_eq_nil_iff.1 hc) hne
    | cons c cs => simpa [isAbsolute, hc] using hx
  rw [join_of_no_slash hne hl hy]
  rcases join_cases base with ⟨rfl, hj⟩ | ⟨b, -, hj⟩
  · rw [hj x hx, hj _ habs, join_of_no_slash hne hl hy]
  · have hlast : (b ++ "/" ++ x).toList.getLast? ≠ some '/' := by
      rw [String.toList_append, List.getLast?_append]
      cases hc : x.toList.getLast? with
      | none => exact absurd (String.toList_eq_nil_iff.1 (List.getLast?_eq_none_iff.1 hc)) hne
      | some c => simpa [hc] using hl
    rw [hj x hx, hj _ habs, join_of_no_slash (by simp) hlast hy]
    simp only [String.append_assoc]

/-! ## Names with slashes between them -/

/-- Texts without slashes, with slashes between them, are read back. -/
theorem segments_intercalate {xs : List String} (h : ∀ s ∈ xs, '/' ∉ s.toList) (hne : xs ≠ []) :
    segments ("/".intercalate xs) = xs := by
  induction xs with
  | nil => exact absurd rfl hne
  | cons s rest ih =>
    have hs := segments_of_no_slash (h s List.mem_cons_self)
    cases rest with
    | nil => rw [String.intercalate_singleton, hs]
    | cons r rest =>
      rw [String.intercalate_cons_cons, segments_append_slash, hs,
        ih (fun x hx => h x (List.mem_cons_of_mem _ hx)) (by simp)]
      rfl

/-- So are names. -/
theorem segments_names {names : List String} (h : ∀ s ∈ names, IsName s) (hne : names ≠ []) :
    segments ("/".intercalate names) = names :=
  segments_intercalate (fun s hs => (h s hs).no_slash) hne

theorem isAbsolute_names {names : List String} (h : ∀ s ∈ names, IsName s) :
    isAbsolute ("/".intercalate names) = false := by
  match names with
  | [] => rfl
  | [s] => exact String.intercalate_singleton ▸ (h s List.mem_cons_self).isAbsolute
  | s :: r :: rest =>
    have hs := (h s List.mem_cons_self).isAbsolute
    rw [String.intercalate_cons_cons]
    cases hc : s.toList with
    | nil => exact absurd (String.toList_eq_nil_iff.1 hc) (h s List.mem_cons_self).ne_empty
    | cons c cs => simpa [isAbsolute, hc] using hs

theorem IsName.getLast?_ne {s : String} (h : IsName s) : s.toList.getLast? ≠ some '/' :=
  fun hl => h.no_slash (List.mem_of_getLast? hl)

/-- An empty path between two paths can be left out. -/
theorem join_join_empty (base : String) {s : String} (h : isAbsolute s = false) :
    join (join base "") s = join base s := by
  rcases join_cases base with ⟨rfl, -⟩ | ⟨b, -, hj⟩
  · rfl
  · rw [hj "" rfl, hj s h]
    simp [join, h]

end Path

namespace FileTree

open HeaderReflection.Path (IsName)

/-- Names with slashes between them, put behind a path, are put behind it one by one. -/
theorem join_names (base : String) {names : List String} (h : ∀ s ∈ names, IsName s)
    (hne : names ≠ []) : Path.join base ("/".intercalate names) = pathBelow base names := by
  induction names generalizing base with
  | nil => exact absurd rfl hne
  | cons s rest ih =>
    have hs := h s List.mem_cons_self
    have hrest : ∀ x ∈ rest, IsName x := fun x hx => h x (List.mem_cons_of_mem _ hx)
    cases rest with
    | nil => rw [String.intercalate_singleton]; rfl
    | cons r rest =>
      have habs := Path.isAbsolute_names hrest
      rw [String.intercalate_cons_cons,
        ← Path.join_of_no_slash hs.ne_empty hs.getLast?_ne habs,
        ← Path.join_join base hs.isAbsolute hs.ne_empty hs.getLast?_ne habs,
        ih (Path.join base s) hrest (by simp)]
      rfl

theorem pathBelow_ne_empty {base : String} (h : base ≠ "") (l : Location) :
    pathBelow base l ≠ "" := by
  induction l generalizing base with
  | nil => exact h
  | cons s l ih =>
    refine ih fun hj => ?_
    unfold Path.join at hj
    split at hj
    · rename_i ha
      rw [hj] at ha
      cases ha
    · split at hj <;> simp_all

/-- Names put behind a path go as many places further down. -/
theorem destination_pathBelow (base : String) {l : Location} (h : ∀ s ∈ l, IsName s) :
    Path.destination (pathBelow base l) = Path.destination base ++ l := by
  induction l generalizing base with
  | nil => simp [pathBelow]
  | cons s l ih =>
    have hd := Path.destination_join base (h s List.mem_cons_self)
    have hl := ih (Path.join base s) fun x hx => h x (List.mem_cons_of_mem _ hx)
    rw [pathBelow, List.foldl_cons]
    exact hl.trans (by simp [hd])

/-- The places that a path with names behind it goes through. -/
theorem mem_waypoints_pathBelow (base : String) {l : Location} (h : ∀ s ∈ l, IsName s)
    {m : Location} :
    m ∈ Path.waypoints (pathBelow base l)
      ↔ m ∈ Path.waypoints base ∨ ∃ p, p <+: l ∧ p ≠ l ∧ m = Path.destination base ++ p := by
  induction l generalizing base with
  | nil => simp +contextual [pathBelow]
  | cons s l ih =>
    have hd := Path.destination_join base (h s List.mem_cons_self)
    have hw := Path.mem_waypoints_join base (h s List.mem_cons_self) (l := m)
    have hl := ih (Path.join base s) fun x hx => h x (List.mem_cons_of_mem _ hx)
    rw [pathBelow, List.foldl_cons]
    refine hl.trans ?_
    rw [hw, hd, or_assoc]
    refine or_congr_right ?_
    constructor
    · rintro (rfl | ⟨p, hp, hne, rfl⟩)
      · exact ⟨[], by simp, by simp, by simp⟩
      · exact ⟨s :: p, by simpa using hp, by simpa using hne, by simp⟩
    · rintro ⟨p, hp, hne, rfl⟩
      cases p with
      | nil => simp
      | cons a p =>
        obtain ⟨rfl, hrest⟩ := List.cons_prefix_cons.1 hp
        exact .inr ⟨p, hrest, by simpa using hne, by simp⟩

end FileTree

end HeaderReflection
