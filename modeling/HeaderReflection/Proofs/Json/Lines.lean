import HeaderReflection.Json.Basic
import HeaderReflection.Proofs.Number.Notation

/-!
# Lines of JSON texts

A JSON text has the items of an array and the members of an object on lines of their own, indented
by their level. The lines of a value behind its first one are indented by its level at least, and
none of them goes on with a quote there.

* `textLines_flatMap`, `Json.toList_bracketed`: the lines of brackets are those of the items between
  them.
* `Json.indented_renderAt`: the lines of a value behind its first one.
-/

namespace HeaderReflection

open Text (isAsciiDigit)

/-! ## Lines of texts -/

/-- The lines of a text. -/
def textLines (cs : List Char) : List (List Char) := cs.splitOn '\n'

theorem textLines_append_newline (cs ds : List Char) :
    textLines (cs ++ '\n' :: ds) = textLines cs ++ textLines ds :=
  List.splitOnP_append_cons cs ds (beq_self_eq_true '\n')

theorem textLines_of_notMem {cs : List Char} (h : '\n' ∉ cs) : textLines cs = [cs] :=
  List.splitOnP_eq_singleton fun c hc => by simpa using ne_of_mem_of_not_mem hc h

/-- Texts that each start a new line, between a text before them and a line behind them. -/
theorem textLines_flatMap (cs ds : List Char) (blocks : List (List Char)) :
    textLines (cs ++ (blocks.flatMap ('\n' :: ·) ++ '\n' :: ds)) =
      textLines cs ++ (blocks.flatMap textLines ++ textLines ds) := by
  induction blocks generalizing cs with
  | nil => simpa using textLines_append_newline cs ds
  | cons b blocks ih =>
    have hcut : cs ++ ((b :: blocks).flatMap ('\n' :: ·) ++ '\n' :: ds) =
        cs ++ '\n' :: (b ++ (blocks.flatMap ('\n' :: ·) ++ '\n' :: ds)) := by simp
    rw [hcut, textLines_append_newline, ih]
    simp

/-- The lines behind the first one are indented by some blanks and go on, not with a quote. -/
def Indented (n : Nat) (cs : List Char) : Prop :=
  ∀ before after, cs = before ++ '\n' :: after →
    ∃ c rest, after = List.replicate n ' ' ++ c :: rest ∧ c ≠ '\x22' ∧ c ≠ '\n'

section Indented

variable {n : Nat} {cs ds : List Char}

theorem Indented.of_notMem (h : '\n' ∉ cs) : Indented n cs := by
  rintro before after rfl
  exact absurd (by simp) h

theorem Indented.append (h : Indented n cs) (h' : Indented n ds) : Indented n (cs ++ ds) := by
  intro before after he
  rcases List.append_eq_append_iff.1 he with ⟨mid, -, hds⟩ | ⟨mid, hcs, hafter⟩
  · exact h' mid after hds
  · cases mid with
    | nil => exact h' [] after (by simpa using hafter.symm)
    | cons c mid =>
      obtain ⟨rfl, rfl⟩ := List.cons.inj hafter
      obtain ⟨d, rest, rfl, hd⟩ := h before mid hcs
      exact ⟨d, rest ++ ds, by simp, hd⟩

theorem Indented.of_append (h : Indented n (ds ++ cs)) : Indented n cs := by
  rintro before after rfl
  exact h (ds ++ before) after (by simp)

theorem Indented.of_add_two (h : Indented (n + 2) cs) : Indented n cs := by
  intro before after he
  obtain ⟨c, rest, rfl, -⟩ := h before after he
  exact ⟨' ', ' ' :: c :: rest, by simp [List.replicate_succ'], by decide, by decide⟩

/-- A line that starts with the blanks and something that is no quote. -/
theorem Indented.newline {c : Char} (hc : c ≠ '\x22') (h : '\n' ∉ c :: cs) :
    Indented n ('\n' :: (List.replicate n ' ' ++ c :: cs)) := by
  intro before after he
  cases before with
  | nil =>
    exact ⟨c, cs, (List.cons.inj he).2.symm, hc, (ne_of_mem_of_not_mem List.mem_cons_self h)⟩
  | cons d before =>
    have hmem : '\n' ∈ List.replicate n ' ' ++ c :: cs := by
      rw [(List.cons.inj he).2]
      simp
    rcases List.mem_append.1 hmem with hmem | hmem
    · exact absurd (List.eq_of_mem_replicate hmem) (by decide)
    · exact absurd hmem h

end Indented

/-! ## Scalars -/

namespace Json

theorem newline_notMem_escapeChar (c : Char) : '\n' ∉ escapeChar c := by
  have hdigit : ∀ n < 16, Nat.digitChar n ≠ '\n' := by decide
  unfold escapeChar controlEscape
  split_ifs with h1 h2 h3 h4 h5 h6 h7 h8
  any_goals decide
  · have hhigh := hdigit (c.toNat / 16) (by omega)
    have hlow := hdigit (c.toNat % 16) (by omega)
    simp [hhigh.symm, hlow.symm]
  · simpa using Ne.symm h5

theorem newline_notMem_quoted (s : String) : '\n' ∉ (quoted s).toList := by
  simp [quoted, newline_notMem_escapeChar]

theorem newline_notMem_toString (n : Nat) : '\n' ∉ (toString n).toList := by
  rw [Nat.toString_eq_repr, Nat.toList_repr]
  exact fun h => absurd (Nat.isDigit_of_mem_toDigits (by decide) (by decide) h) (by decide)

theorem newline_notMem_json (x : Number) : '\n' ∉ x.json.toList := by
  have hdigit : isAsciiDigit '\n' = false := by decide
  have hdigits : '\n' ∉ x.shortest.digitChars := fun h => by
    rw [isAsciiDigit_of_mem_digitChars h] at hdigit
    cases hdigit
  have hpositional : '\n' ∉ x.shortest.positional ['.', '0'] := fun h => by
    rcases Decimal.isAsciiDigit_or_point_of_mem h with h | h | h
    · rw [h] at hdigit
      cases hdigit
    · exact absurd h (by decide)
    · exact absurd h (by decide)
  have hscientific : '\n' ∉ x.shortest.scientific := by
    have hexponent := newline_notMem_toString (x.shortest.point - 1).natAbs
    unfold Decimal.scientific
    dsimp only
    split <;> split <;> simp_all
  unfold Number.json Number.signed
  split
  · dsimp only
    split_ifs <;> simp [hpositional, hscientific]
  · decide

/-! ## Brackets -/

theorem renderItems_eq_map (level : Nat) (items : List Json) :
    renderItems level items = items.map (renderAt level) := by
  induction items with
  | nil => rfl
  | cons j rest ih => rw [renderItems, ih, List.map_cons]

/-- The written form of a member at a level of indentation. -/
def memberText (level : Nat) (m : String × Json) : String :=
  quoted m.1 ++ ": " ++ renderAt level m.2

theorem renderMembers_eq_map (level : Nat) (members : List (String × Json)) :
    renderMembers level members = members.map (memberText level) := by
  induction members with
  | nil => rfl
  | cons m rest ih =>
    rw [renderMembers, ih, List.map_cons]
    rfl

theorem toList_lineStart (level : Nat) :
    (lineStart level).toList = '\n' :: List.replicate (2 * level) ' ' := by
  simp [lineStart]

/-- Items behind the blanks of their lines, each but the last one in front of a comma. -/
def blocks (level : Nat) : List String → List (List Char)
  | [] => []
  | [item] => [List.replicate (2 * level) ' ' ++ item.toList]
  | item :: rest => (List.replicate (2 * level) ' ' ++ item.toList ++ [',']) :: blocks level rest

theorem blocks_cons (level : Nat) (item : String) {rest : List String} (hne : rest ≠ []) :
    blocks level (item :: rest) =
      (List.replicate (2 * level) ' ' ++ item.toList ++ [',']) :: blocks level rest := by
  cases rest with
  | nil => exact absurd rfl hne
  | cons next rest => rfl

theorem toList_intercalate_lineStart (level : Nat) (items : List String) :
    (",".intercalate (items.map (lineStart level ++ ·))).toList =
      (blocks level items).flatMap ('\n' :: ·) := by
  induction items with
  | nil => rfl
  | cons item rest ih =>
    cases rest with
    | nil => simp [blocks, toList_lineStart]
    | cons next rest =>
      rw [List.map_cons, List.map_cons, String.intercalate_cons_cons, ← List.map_cons,
        String.toList_append, ih]
      simp [blocks, toList_lineStart]

theorem toList_bracketed {level : Nat} {first last : String} {items : List String}
    (hne : items ≠ []) : (bracketed level first last items).toList =
      first.toList ++ ((blocks (level + 1) items).flatMap ('\n' :: ·) ++
        '\n' :: (List.replicate (2 * level) ' ' ++ last.toList)) := by
  rw [bracketed, if_neg (by simpa using hne), String.toList_append, String.toList_append,
    String.toList_append, toList_intercalate_lineStart, toList_lineStart]
  simp

/-- Brackets around items that are indented further. -/
theorem indented_bracketed {level : Nat} {first last : String} {c : Char} {items : List String}
    (hfirst : '\n' ∉ first.toList) (hlast : last.toList = [c]) (hquote : c ≠ '\x22')
    (hline : '\n' ∉ [c]) (hitems : ∀ item ∈ items, Indented (2 * (level + 1)) item.toList) :
    Indented (2 * level) (bracketed level first last items).toList := by
  by_cases hne : items = []
  · subst hne
    exact .of_notMem (by simpa [bracketed, hfirst, hlast] using hline)
  have hblock : ∀ item ∈ items, ∀ more : List Char, '\n' ∉ more → Indented (2 * level)
      ('\n' :: (List.replicate (2 * (level + 1)) ' ' ++ item.toList ++ more)) := by
    intro item hitem more hmore
    have hstart : Indented (2 * level) ('\n' :: (List.replicate (2 * level) ' ' ++ [' ', ' '])) :=
      .newline (by decide) (by decide)
    have htext := (hstart.append (hitems item hitem).of_add_two).append (.of_notMem hmore)
    simpa [Nat.mul_add, List.replicate_add] using htext
  have hblocks : Indented (2 * level) ((blocks (level + 1) items).flatMap ('\n' :: ·)) := by
    clear hne
    induction items with
    | nil => exact .of_notMem (by simp [blocks])
    | cons item rest ih =>
      cases rest with
      | nil => simpa [blocks] using hblock item (by simp) [] (by simp)
      | cons next rest =>
        have hrest := ih (fun i hi => hitems i (List.mem_cons_of_mem _ hi))
          (fun i hi => hblock i (List.mem_cons_of_mem _ hi))
        exact (hblock item (by simp) [','] (by decide)).append hrest
  rw [toList_bracketed hne]
  have hclose : Indented (2 * level) ('\n' :: (List.replicate (2 * level) ' ' ++ last.toList)) := by
    rw [hlast]
    exact .newline hquote hline
  exact (Indented.of_notMem hfirst).append (hblocks.append hclose)

mutual

/-- The lines of a value behind its first one are indented by its level, and do not go on with a
quote. -/
theorem indented_renderAt (level : Nat) : (j : Json) →
    Indented (2 * level) (renderAt level j).toList
  | .null => .of_notMem (by simp [renderAt])
  | .bool b => .of_notMem (by cases b <;> simp [renderAt])
  | .count n => .of_notMem (newline_notMem_toString n)
  | .number x => .of_notMem (newline_notMem_json x)
  | .string s => .of_notMem (newline_notMem_quoted s)
  | .array items => by
    rw [renderAt]
    exact indented_bracketed (c := ']') (by decide) (by decide) (by decide) (by decide)
      (indented_renderItems (level + 1) items)
  | .object members => by
    rw [renderAt]
    exact indented_bracketed (c := '\x7d') (by decide) (by decide) (by decide) (by decide)
      (indented_renderMembers (level + 1) members)

theorem indented_renderItems (level : Nat) : (items : List Json) →
    ∀ text ∈ renderItems level items, Indented (2 * level) text.toList
  | [] => by simp [renderItems]
  | j :: rest => by
    rw [renderItems, List.forall_mem_cons]
    exact ⟨indented_renderAt level j, indented_renderItems level rest⟩

theorem indented_renderMembers (level : Nat) : (members : List (String × Json)) →
    ∀ text ∈ renderMembers level members, Indented (2 * level) text.toList
  | [] => by simp [renderMembers]
  | (key, j) :: rest => by
    rw [renderMembers, List.forall_mem_cons]
    refine ⟨?_, indented_renderMembers level rest⟩
    have hkey : '\n' ∉ (quoted key ++ ": ").toList := by
      simp [newline_notMem_quoted]
    rw [String.toList_append]
    exact (Indented.of_notMem hkey).append (indented_renderAt level j)

end

end Json

end HeaderReflection
