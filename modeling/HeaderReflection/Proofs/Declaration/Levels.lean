import HeaderReflection.Declaration.Brackets

/-!
# Depths along a text

* `Leads.append`, `Leads.deeper`, `Leads.group`: texts that lead from one depth to another.
* `Leads.exists_or_stop`: where a text that leads nowhere stops.
* `breakTop_leads`, `closeGroup_leads`, `splitTop_intercalate`: the cuts of declarations, along such
  texts.
-/

namespace HeaderReflection

/-- Reading tokens of the given weights leads from one depth to another. It goes below no bracket
that was open before, and meets no mark outside brackets. -/
def Leads {α : Type} (weight : α → Int) (mark : α → Prop) : Int → List α → Int → Prop
  | d, [], e => d = e
  | d, t :: ts, e => (d = 0 → ¬mark t) ∧ 0 ≤ d + weight t ∧ Leads weight mark (d + weight t) ts e

namespace Leads

instance decidable {α : Type} (weight : α → Int) (mark : α → Prop) [DecidablePred mark] :
    (d : Int) → (ts : List α) → (e : Int) → Decidable (Leads weight mark d ts e)
  | d, [], e => inferInstanceAs (Decidable (d = e))
  | d, t :: ts, e =>
    have := decidable weight mark (d + weight t) ts e
    inferInstanceAs (Decidable ((d = 0 → ¬mark t) ∧ 0 ≤ d + weight t ∧ _))

variable {α : Type} {weight : α → Int} {mark other : α → Prop} {d e f : Int} {t : α}
  {ts us : List α}

@[simp] theorem nil_iff : Leads weight mark d [] e ↔ d = e := Iff.rfl

@[simp] theorem cons_iff : Leads weight mark d (t :: ts) e ↔
    (d = 0 → ¬mark t) ∧ 0 ≤ d + weight t ∧ Leads weight mark (d + weight t) ts e := Iff.rfl

theorem append (h : Leads weight mark d ts e) (h' : Leads weight mark e us f) :
    Leads weight mark d (ts ++ us) f := by
  induction ts generalizing d with
  | nil => rwa [nil_iff.1 h]
  | cons t ts ih => exact ⟨h.1, h.2.1, ih h.2.2⟩

/-- Inside brackets no token counts as a mark. -/
theorem deeper (h : Leads weight mark d ts e) (hd : 0 ≤ d) :
    Leads weight other (d + 1) ts (e + 1) := by
  induction ts generalizing d with
  | nil => rw [nil_iff] at *; omega
  | cons t ts ih =>
    obtain ⟨-, hnext, hrest⟩ := h
    have hstep : d + 1 + weight t = d + weight t + 1 := by omega
    refine ⟨fun h0 => absurd h0 (by omega), by omega, ?_⟩
    rw [hstep]
    exact ih hrest hnext

theorem weaken (h : Leads weight mark d ts e) (hmark : ∀ t ∈ ts, other t → mark t) :
    Leads weight other d ts e := by
  induction ts generalizing d with
  | nil => exact h
  | cons t ts ih =>
    exact ⟨fun h0 ht => h.1 h0 (hmark t List.mem_cons_self ht), h.2.1,
      ih h.2.2 fun u hu => hmark u (List.mem_cons_of_mem _ hu)⟩

/-- Tokens that are no brackets and no marks. -/
theorem plain (hd : 0 ≤ d) (h : ∀ t ∈ ts, weight t = 0 ∧ ¬mark t) : Leads weight mark d ts d := by
  induction ts with
  | nil => rfl
  | cons t ts ih =>
    obtain ⟨hweight, hmark⟩ := h t List.mem_cons_self
    refine ⟨fun _ => hmark, by omega, ?_⟩
    rw [hweight, Int.add_zero]
    exact ih fun u hu => h u (List.mem_cons_of_mem _ hu)

/-- A group in brackets. -/
theorem group {opening closing : α} (hopen : weight opening = 1) (hmark : ¬mark opening)
    (hclose : weight closing = -1) (h : Leads weight other 0 ts 0) :
    Leads weight mark 0 (opening :: (ts ++ [closing])) 0 := by
  refine ⟨fun _ => hmark, by omega, ?_⟩
  rw [hopen]
  refine (h.deeper (Int.le_refl 0)).append ⟨fun h0 => absurd h0 (by omega), by omega, ?_⟩
  rw [nil_iff]
  omega

/-- Texts with a separator between them that is no bracket and no mark. -/
theorem intercalate {separator : α} {parts : List (List α)} (hweight : weight separator = 0)
    (hmark : ¬mark separator) (h : ∀ part ∈ parts, Leads weight mark 0 part 0) :
    Leads weight mark 0 ([separator].intercalate parts) 0 := by
  induction parts with
  | nil => rfl
  | cons part parts ih =>
    have hpart := h part List.mem_cons_self
    cases parts with
    | nil => rwa [List.intercalate_singleton]
    | cons next parts =>
      have hrest := ih fun q hq => h q (List.mem_cons_of_mem _ hq)
      have hseparator : Leads weight mark 0 [separator] 0 := plain (Int.le_refl 0) (by simp_all)
      rw [List.intercalate_cons_cons]
      exact (hpart.append hseparator).append hrest

theorem nonneg (h : Leads weight mark d ts e) (hd : 0 ≤ d) : 0 ≤ e := by
  induction ts generalizing d with
  | nil => rwa [← nil_iff.1 h]
  | cons t ts ih => exact ih h.2.2 h.2.1

/-- Tokens lead somewhere, unless one of them is a mark outside brackets or closes a bracket that
none of them opens. -/
theorem exists_or_stop (weight : α → Int) (mark : α → Prop) (hd : 0 ≤ d) (ts : List α) :
    (∃ e, Leads weight mark d ts e) ∨
      ∃ front t back e, ts = front ++ t :: back ∧ Leads weight mark d front e ∧
        (e = 0 ∧ mark t ∨ e + weight t < 0) := by
  induction ts generalizing d with
  | nil => exact .inl ⟨d, rfl⟩
  | cons t ts ih =>
    by_cases hmark : d = 0 ∧ mark t
    · exact .inr ⟨[], t, ts, d, rfl, rfl, .inl hmark⟩
    by_cases hbelow : d + weight t < 0
    · exact .inr ⟨[], t, ts, d, rfl, rfl, .inr hbelow⟩
    have hone : Leads weight mark d [t] (d + weight t) :=
      ⟨fun h0 ht => hmark ⟨h0, ht⟩, by omega, rfl⟩
    rcases ih (by omega : 0 ≤ d + weight t) with ⟨e, hrest⟩ | ⟨front, u, back, e, rfl, hfront, hu⟩
    · exact .inl ⟨e, hone.append hrest⟩
    · exact .inr ⟨t :: front, u, back, e, rfl, hone.append hfront, hu⟩

theorem map {β : Type} {g : β → α} {xs : List β} :
    Leads weight mark d (xs.map g) e ↔ Leads (weight ∘ g) (mark ∘ g) d xs e := by
  induction xs generalizing d with
  | nil => rfl
  | cons x xs ih => simp only [List.map_cons, cons_iff, ih, Function.comp_apply]

end Leads

namespace Declaration

variable {d e : Int} {ts : List String}

theorem breakTop_leads {targets : List String} (h : Leads bracketDepth (· ∈ targets) d ts e)
    (rest : List String) : breakTop targets d (ts ++ rest) =
      (ts ++ (breakTop targets e rest).1, (breakTop targets e rest).2) := by
  induction ts generalizing d with
  | nil => rw [Leads.nil_iff.1 h]; rfl
  | cons t ts ih =>
    obtain ⟨hmark, -, hrest⟩ := h
    rw [List.cons_append, breakTop, if_neg]
    · simp only [ih hrest, List.cons_append]
    · simpa using hmark

theorem breakTop_of_leads {targets : List String} (h : Leads bracketDepth (· ∈ targets) d ts e) :
    breakTop targets d ts = (ts, []) := by
  have hbreak := breakTop_leads h []
  simpa [breakTop] using hbreak

theorem breakTop_mark {targets : List String} {mark : String}
    (h : Leads bracketDepth (· ∈ targets) 0 ts 0) (hmark : mark ∈ targets) (rest : List String) :
    breakTop targets 0 (ts ++ mark :: rest) = (ts, mark :: rest) := by
  rw [breakTop_leads h]
  simp [breakTop, hmark]

theorem closeGroup_leads {mark : String → Prop} (h : Leads bracketDepth mark d ts e) (hd : 0 ≤ d)
    (rest : List String) : closeGroup (d + 1) (ts ++ rest) =
      (closeGroup (e + 1) rest).map fun (group, after) => (ts ++ group, after) := by
  induction ts generalizing d with
  | nil =>
    rw [Leads.nil_iff.1 h, List.nil_append]
    cases closeGroup (e + 1) rest <;> rfl
  | cons t ts ih =>
    obtain ⟨-, hnext, hrest⟩ := h
    have hstep : d + 1 + bracketDepth t = d + bracketDepth t + 1 := by omega
    rw [List.cons_append, closeGroup, if_neg (by omega), hstep, ih hrest hnext, Option.map_map]
    rfl

/-- A group ends with the bracket that closes it. -/
theorem closeGroup_group {mark : String → Prop}
    (h : Leads bracketDepth mark 0 ts 0) (closing : String) (hclose : bracketDepth closing = -1)
    (rest : List String) :
    closeGroup 1 (ts ++ closing :: rest) = some (ts ++ [closing], rest) := by
  have hgroup := closeGroup_leads h (Int.le_refl 0) (closing :: rest)
  rw [Int.zero_add] at hgroup
  rw [hgroup]
  simp [closeGroup, hclose]

theorem splitTop_ne_nil (separator : String) (d : Int) (ts : List String) :
    splitTop separator d ts ≠ [] := by
  cases ts with
  | nil => simp [splitTop]
  | cons t rest =>
    rw [splitTop]
    split
    · simp
    · split <;> simp

theorem splitTop_cons_of_not {separator t : String} (h : ¬(d = 0 ∧ t = separator)) :
    splitTop separator d (t :: ts) =
      (splitTop separator (d + bracketDepth t) ts).modifyHead (t :: ·) := by
  rw [splitTop, if_neg (by simpa using h)]
  split
  · rename_i hnil
    exact absurd hnil (splitTop_ne_nil separator _ ts)
  · rename_i hcons
    rw [hcons]
    rfl

theorem splitTop_leads {separator : String} (h : Leads bracketDepth (· = separator) d ts e)
    (rest : List String) :
    splitTop separator d (ts ++ rest) = (splitTop separator e rest).modifyHead (ts ++ ·) := by
  induction ts generalizing d with
  | nil =>
    rw [Leads.nil_iff.1 h, List.nil_append]
    cases splitTop separator e rest <;> rfl
  | cons t ts ih =>
    obtain ⟨hmark, -, hrest⟩ := h
    rw [List.cons_append, splitTop_cons_of_not fun h0 => hmark h0.1 h0.2, ih hrest]
    cases splitTop separator e rest <;> rfl

/-- Parts joined by a separator are split again. -/
theorem splitTop_intercalate {separator : String} {parts : List (List String)}
    (hne : parts ≠ []) (h : ∀ part ∈ parts, Leads bracketDepth (· = separator) 0 part 0) :
    splitTop separator 0 ([separator].intercalate parts) = parts := by
  induction parts with
  | nil => exact absurd rfl hne
  | cons part parts ih =>
    have hpart := h part List.mem_cons_self
    cases parts with
    | nil =>
      have hone := splitTop_leads hpart []
      simpa [splitTop] using hone
    | cons next parts =>
      have hrest := ih (by simp) fun q hq => h q (List.mem_cons_of_mem _ hq)
      rw [List.intercalate_cons_cons, List.append_assoc, splitTop_leads hpart,
        List.singleton_append, splitTop]
      simp [hrest]

end Declaration

end HeaderReflection
