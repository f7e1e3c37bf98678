import Mathlib.Data.List.DropRight
import HeaderReflection.Text.CharClass

/-!
# Character classes apart from each other

* `takeWhile_run`, `dropWhile_run`: a run of a class ends where the next character is outside it.
* `isBlank_eq_false_of_isAlphanumeric`: no letter or digit of any script is white space.
-/

namespace HeaderReflection.Text

/-! ## Runs -/

theorem takeWhile_append_stop {p : Char → Bool} {rest : List Char}
    (hr : ∀ c ∈ rest.head?, p c = false) (cs : List Char) :
    (cs ++ rest).takeWhile p = cs.takeWhile p := by
  have hrest : rest.takeWhile p = [] := by
    cases rest with
    | nil => rfl
    | cons c rest => simp [hr c rfl]
  rw [List.takeWhile_append, hrest, List.append_nil]
  split
  · rename_i hall
    exact (List.Sublist.eq_of_length (List.takeWhile_sublist p) hall).symm
  · rfl

theorem dropWhile_append_stop {p : Char → Bool} {rest : List Char}
    (hr : ∀ c ∈ rest.head?, p c = false) (cs : List Char) :
    (cs ++ rest).dropWhile p = cs.dropWhile p ++ rest := by
  have happ : (cs ++ rest).takeWhile p ++ (cs ++ rest).dropWhile p = cs ++ rest :=
    List.takeWhile_append_dropWhile
  have hcs : cs.takeWhile p ++ cs.dropWhile p = cs := List.takeWhile_append_dropWhile
  rw [takeWhile_append_stop hr] at happ
  have hboth : cs.takeWhile p ++ (cs ++ rest).dropWhile p =
      cs.takeWhile p ++ (cs.dropWhile p ++ rest) := by
    rw [happ, ← List.append_assoc, hcs]
  exact List.append_cancel_left hboth

theorem takeWhile_run {p : Char → Bool} {cs rest : List Char} (h : ∀ c ∈ cs, p c = true)
    (hr : ∀ c ∈ rest.head?, p c = false) : (cs ++ rest).takeWhile p = cs := by
  have hall : (cs ++ []).takeWhile p = cs ++ [].takeWhile p := List.takeWhile_append_of_pos h
  simpa [takeWhile_append_stop hr] using hall

theorem dropWhile_run {p : Char → Bool} {cs rest : List Char} (h : ∀ c ∈ cs, p c = true)
    (hr : ∀ c ∈ rest.head?, p c = false) : (cs ++ rest).dropWhile p = rest := by
  have hall : (cs ++ []).dropWhile p = [].dropWhile p := List.dropWhile_append_of_pos h
  rw [List.append_nil] at hall
  rw [dropWhile_append_stop hr, hall]
  rfl

/-- A run of a class is told apart from what follows it. -/
theorem run_append_inj {p : Char → Bool} {cs cs' rest rest' : List Char}
    (h : ∀ c ∈ cs, p c = true) (h' : ∀ c ∈ cs', p c = true)
    (hr : ∀ c ∈ rest.head?, p c = false) (hr' : ∀ c ∈ rest'.head?, p c = false)
    (he : cs ++ rest = cs' ++ rest') : cs = cs' ∧ rest = rest' := by
  have htake := congrArg (List.takeWhile p) he
  rw [takeWhile_run h hr, takeWhile_run h' hr'] at htake
  exact ⟨htake, List.append_cancel_left (htake ▸ he)⟩

/-! ## Trimming -/

/-- A text without the blanks at its end. -/
def trimEnd (cs : List Char) : List Char :=
  (cs.reverse.dropWhile isBlank).reverse

theorem trimEnd_eq_self {cs : List Char} (hlast : ∀ c ∈ cs.getLast?, isBlank c = false) :
    trimEnd cs = cs := by
  have hkeep : cs.reverse.dropWhile isBlank = cs.reverse := by
    cases hrev : cs.reverse with
    | nil => rfl
    | cons c rest =>
      have hc : c ∈ cs.getLast? := by
        rw [← List.head?_reverse, hrev]
        rfl
      rw [List.dropWhile_cons_of_neg (by simp [hlast c hc])]
  rw [trimEnd, hkeep, List.reverse_reverse]

theorem trimEnd_prefix (cs : List Char) : trimEnd cs <+: cs := by
  unfold trimEnd
  rw [← List.reverse_suffix, List.reverse_reverse]
  exact List.dropWhile_suffix _

/-- What is trimmed from the end of a text is blank. -/
theorem exists_trimEnd_append (cs : List Char) :
    ∃ right, cs = trimEnd cs ++ right ∧ ∀ c ∈ right, isBlank c = true := by
  refine ⟨(cs.reverse.takeWhile isBlank).reverse, ?_, fun c hc => ?_⟩
  · rw [trimEnd, ← List.reverse_append, List.takeWhile_append_dropWhile, List.reverse_reverse]
  · exact List.mem_takeWhile_imp (List.mem_reverse.1 hc)

theorem trimEnd_eq_nil_iff {cs : List Char} : trimEnd cs = [] ↔ cs.all isBlank = true := by
  rw [trimEnd, List.reverse_eq_nil_iff, List.dropWhile_eq_nil_iff, List.all_eq_true]
  simp only [List.mem_reverse]

/-- A text that is more than blanks keeps its first character. -/
theorem exists_trimEnd_cons {c : Char} {cs : List Char} (h : ¬(c :: cs).all isBlank = true) :
    ∃ left, left <+: cs ∧ trimEnd (c :: cs) = c :: left := by
  have htrim : trimEnd (c :: cs) <+: c :: cs := trimEnd_prefix _
  rcases List.prefix_cons_iff.1 htrim with hnil | ⟨left, hleft, hcs⟩
  · exact absurd (trimEnd_eq_nil_iff.1 hnil) h
  · exact ⟨left, hcs, hleft⟩

/-- Of a text in two parts, blanks are trimmed from the first only if they are all of the second. -/
theorem trimEnd_append_eq_ite (cs ds : List Char) :
    trimEnd (cs ++ ds) = if ds.all isBlank then trimEnd cs else cs ++ trimEnd ds := by
  have hblank : (ds.reverse.dropWhile isBlank).isEmpty = ds.all isBlank := by
    rw [Bool.eq_iff_iff, List.isEmpty_iff, ← List.reverse_eq_nil_iff]
    exact trimEnd_eq_nil_iff
  unfold trimEnd
  rw [List.reverse_append, List.dropWhile_append, hblank]
  split
  · rfl
  · rw [List.reverse_append, List.reverse_reverse]

theorem trimEnd_append {cs : List Char}
    (hlast : ∀ c ∈ cs.getLast?, isBlank c = false) (ds : List Char) :
    trimEnd (cs ++ ds) = cs ++ trimEnd ds := by
  rw [trimEnd_append_eq_ite]
  split
  · rename_i hall
    rw [trimEnd_eq_self hlast, trimEnd_eq_nil_iff.2 hall, List.append_nil]
  · rfl

/-- A text that starts with no blank is trimmed at its end only. -/
theorem trimBlanks_eq_trimEnd {cs : List Char} (hhead : ∀ c ∈ cs.head?, isBlank c = false) :
    trimBlanks cs = trimEnd cs := by
  have hdrop : cs.dropWhile isBlank = cs := by
    cases cs with
    | nil => rfl
    | cons c cs => rw [List.dropWhile_cons_of_neg (by simp [hhead c rfl])]
  rw [trimBlanks, hdrop, trimEnd]

/-- Blanks behind a text are trimmed from it. -/
theorem trimBlanks_append {cs : List Char} (hne : cs ≠ [])
    (hhead : ∀ c ∈ cs.head?, isBlank c = false) (hlast : ∀ c ∈ cs.getLast?, isBlank c = false)
    (ds : List Char) : trimBlanks (cs ++ ds) = cs ++ trimEnd ds := by
  have hfirst : ∀ c ∈ (cs ++ ds).head?, isBlank c = false := by
    rwa [List.head?_append_of_ne_nil _ hne]
  rw [trimBlanks_eq_trimEnd hfirst, trimEnd_append hlast]

theorem trimBlanks_cons {c : Char} (hc : isBlank c = true) (cs : List Char) :
    trimBlanks (c :: cs) = trimBlanks cs := by
  unfold trimBlanks
  rw [List.dropWhile_cons_of_pos hc]

/-- A text without blanks at its ends is not changed by trimming. -/
theorem trimBlanks_eq_self {cs : List Char} (hhead : ∀ c ∈ cs.head?, isBlank c = false)
    (hlast : ∀ c ∈ cs.getLast?, isBlank c = false) : trimBlanks cs = cs := by
  rw [trimBlanks_eq_trimEnd hhead, trimEnd_eq_self hlast]

/-! ## Classes -/

/-- Two tables of ranges are compared range by range. -/
theorem inRanges_eq_false_of_apart {s t : List (Nat × Nat)} {c : Char}
    (h : (s.all fun a => t.all fun b => a.2 < b.1 || b.2 < a.1) = true)
    (hs : inRanges s c = true) : inRanges t c = false := by
  unfold inRanges at *
  obtain ⟨a, ha, hac⟩ := List.any_eq_true.1 hs
  rw [List.any_eq_false]
  intro b hb hbc
  have hab := List.all_eq_true.1 (List.all_eq_true.1 h a ha) b hb
  simp only [Bool.and_eq_true, Bool.or_eq_true, decide_eq_true_eq] at hac hbc hab
  omega

theorem not_alphabetic_of_whiteSpace {c : Char}
    (h : inRanges ClassTable.whiteSpace c = true) : inRanges ClassTable.alphabetic c = false :=
  inRanges_eq_false_of_apart (by decide +kernel) h

theorem not_numeric_of_whiteSpace {c : Char}
    (h : inRanges ClassTable.whiteSpace c = true) : inRanges ClassTable.numeric c = false :=
  inRanges_eq_false_of_apart (by decide +kernel) h

private theorem toNat_lt_of_isAsciiBlank {c : Char} (h : (isAsciiBlank c || c == '\x0b') = true) :
    c.toNat < 128 ∧ isAlphanumeric c = false := by
  simp only [isAsciiBlank, Bool.or_eq_true, beq_iff_eq] at h
  rcases h with ((((rfl | rfl) | rfl) | rfl) | rfl) | rfl <;> decide

/-- No letter or digit of any script is white space. -/
theorem isBlank_eq_false_of_isAlphanumeric {c : Char} (h : isAlphanumeric c = true) :
    isBlank c = false := by
  refine Bool.eq_false_iff.2 fun hb => ?_
  by_cases hc : c.toNat < 128
  · simp only [isBlank, hc, if_true] at hb
    rw [(toNat_lt_of_isAsciiBlank hb).2] at h
    cases h
  · simp only [isBlank, hc, if_false] at hb
    simp [isAlphanumeric, isAlphabetic, isNumeric, hc, not_alphabetic_of_whiteSpace hb,
      not_numeric_of_whiteSpace hb] at h

theorem isAlphanumeric_of_isAsciiDigit {c : Char} (h : isAsciiDigit c = true) :
    isAlphanumeric c = true := by
  have hc : c.toNat < 128 := by
    simp only [isAsciiDigit, Bool.and_eq_true, decide_eq_true_eq, Char.le_def] at h
    have hle : c.toNat ≤ '9'.toNat := UInt32.le_iff_toNat_le.1 h.2
    exact Nat.lt_of_le_of_lt hle (by decide)
  simp [isAlphanumeric, isNumeric, hc, h]

theorem isAlphanumeric_of_isAsciiLetter {c : Char} (h : isAsciiLetter c = true) :
    isAlphanumeric c = true := by
  have hc : c.toNat < 128 := by
    simp only [isAsciiLetter, Bool.or_eq_true, Bool.and_eq_true, decide_eq_true_eq, Char.le_def,
      UInt32.le_iff_toNat_le] at h
    have hz : 'z'.toNat < 128 ∧ 'Z'.toNat < 128 := by decide
    simp only [Char.toNat] at hz ⊢
    omega
  simp [isAlphanumeric, isAlphabetic, hc, h]

theorem isWordStart_eq_false_of_isAsciiDigit {c : Char} (h : isAsciiDigit c = true) :
    isWordStart c = false := by
  have hdigit : '0'.toNat ≤ c.toNat ∧ c.toNat ≤ '9'.toNat := by
    simpa [isAsciiDigit, Char.le_def, UInt32.le_iff_toNat_le] using h
  have hbound : c.toNat < 128 := Nat.lt_of_le_of_lt hdigit.2 (by decide)
  have hunderscore : c ≠ '_' := by
    rintro rfl
    cases h
  have hletter : isAsciiLetter c = false := by
    rw [Bool.eq_false_iff]
    intro hc
    simp only [isAsciiLetter, Bool.or_eq_true, Bool.and_eq_true, decide_eq_true_eq, Char.le_def,
      UInt32.le_iff_toNat_le] at hc
    have h9 : '9'.toNat < 'A'.toNat ∧ '9'.toNat < 'a'.toNat := by decide
    simp only [Char.toNat] at hdigit h9
    omega
  simp [isWordStart, isAlphabetic, hbound, hletter, hunderscore]

theorem isBlank_eq_false_of_isWordChar {c : Char} (h : isWordChar c = true) :
    isBlank c = false := by
  rcases Bool.or_eq_true_iff.1 h with h | h
  · exact isBlank_eq_false_of_isAlphanumeric h
  · rw [beq_iff_eq.1 h]
    decide

end HeaderReflection.Text
