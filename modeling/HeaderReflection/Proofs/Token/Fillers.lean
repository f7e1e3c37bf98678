import Mathlib.Data.List.DropRight
import HeaderReflection.Proofs.Token.Follow

/-!
# What stands between tokens

Between tokens stand blanks, comments and directives. A comment or a directive runs to the first
place where it can end, or to the end of the text. Whether a number sign starts a directive depends
on the line in front of it alone.

* `RunsTo.unique`: there is one first place.
* `gapPiece_eq_some_iff_filler`: what a gap starts with is a filler, and any filler is taken.
* `fillers_splitGap`: a gap is a sequence of fillers.
-/

namespace HeaderReflection.Token

open Text (isAsciiBlank isBlank)

variable {before cs rest rest' taken taken' : List Char}

/-! ## First places -/

/-- A stretch of text runs to the first place that meets a condition on what stands in front of it
and behind it, or else to the end of the text. -/
structure RunsTo (place : List Char → List Char → Prop) (taken rest : List Char) : Prop where
  ends : rest = [] ∨ place taken rest
  first : ∀ front back, taken = front ++ back → back ≠ [] → ¬place front (back ++ rest)

namespace RunsTo

variable {place : List Char → List Char → Prop}

theorem nil (h : rest = [] ∨ place [] rest) : RunsTo place [] rest where
  ends := h
  first _ _ htaken hback := absurd (List.append_eq_nil_iff.1 htaken.symm).2 hback

/-- A character in front puts the place one further. -/
theorem cons {c : Char} (hhere : ¬place [] (c :: (taken ++ rest)))
    (h : RunsTo (fun front => place (c :: front)) taken rest) : RunsTo place (c :: taken) rest where
  ends := h.ends
  first front back htaken hback := by
    cases front with
    | nil =>
      rw [List.nil_append] at htaken
      rwa [← htaken]
    | cons d front =>
      obtain ⟨rfl, hmore⟩ := List.cons.inj htaken
      exact h.first front back hmore hback

theorem weaken {other : List Char → List Char → Prop} (h : RunsTo place taken rest)
    (hsame : ∀ front behind, place front behind ↔ other front behind) :
    RunsTo other taken rest where
  ends := h.ends.imp_right (hsame taken rest).1
  first front back htaken hback := fun hplace =>
    h.first front back htaken hback ((hsame _ _).2 hplace)

/-- There is one first place. -/
theorem unique (h : RunsTo place taken rest) (h' : RunsTo place taken' rest')
    (he : taken ++ rest = taken' ++ rest') : taken = taken' ∧ rest = rest' := by
  have hlonger : ∀ {taken rest taken' rest' more : List Char}, RunsTo place taken rest →
      RunsTo place taken' rest' → taken' = taken ++ more → rest = more ++ rest' → more = [] := by
    intro taken rest taken' rest' more h h' htaken hrest
    by_contra hmore
    have hne : rest ≠ [] := by simp [hrest, hmore]
    exact h'.first taken more htaken hmore (hrest ▸ h.ends.resolve_left hne)
  rcases List.append_eq_append_iff.1 he with ⟨more, htaken, hrest⟩ | ⟨more, htaken, hrest⟩
  · obtain rfl := hlonger h h' htaken hrest
    simpa using And.intro htaken.symm hrest
  · obtain rfl := hlonger h' h htaken hrest
    simpa using And.intro htaken hrest.symm

/-- A text that is split at the first place is split nowhere else. -/
theorem eq_iff {split : List Char × List Char} (h : RunsTo place split.1 split.2)
    (he : split.1 ++ split.2 = taken ++ rest) :
    split = (taken, rest) ↔ RunsTo place taken rest := by
  constructor
  · rintro rfl
    exact h
  · intro h'
    exact Prod.ext_iff.2 (h.unique h' he)

end RunsTo

/-! ## Ends of comments and directives -/

/-- In front of a line end. -/
def AtLineEnd (_front behind : List Char) : Prop :=
  '\n' ∈ behind.head?

/-- Behind a mark that closes block comments. -/
def BehindClosing (front _behind : List Char) : Prop :=
  ['*', '/'] <:+ front

/-- A line that ends in a backslash, with or without a carriage return, goes on with the next. -/
def Continues (line : List Char) : Prop :=
  ['\\'] <:+ line ∨ ['\\', '\x0d'] <:+ line

/-- In front of the end of a line that does not go on. -/
def AtLastLineEnd (front behind : List Char) : Prop :=
  '\n' ∈ behind.head? ∧ ¬Continues front

theorem continues_cons_iff {c : Char} :
    Continues (c :: cs) ↔ (c = '\\' ∧ (cs = [] ∨ cs = ['\x0d'])) ∨ Continues cs := by
  simp only [Continues, List.suffix_cons_iff, List.cons.injEq, eq_comm (a := '\\'),
    eq_comm (b := cs)]
  tauto

theorem not_continues_nil : ¬Continues [] := by
  simp [Continues]

theorem runsTo_splitLineComment (cs : List Char) :
    RunsTo AtLineEnd (splitLineComment cs).1 (splitLineComment cs).2 := by
  induction cs with
  | nil => exact .nil (.inl rfl)
  | cons c cs ih =>
    by_cases hc : c = '\n'
    · subst hc
      exact .nil (.inr rfl)
    · have hstep : splitLineComment (c :: cs) =
          (c :: (splitLineComment cs).1, (splitLineComment cs).2) := by
        simp [splitLineComment, hc]
      rw [hstep]
      exact .cons (by simpa [AtLineEnd] using hc) ih

theorem behindClosing_cons_iff {c : Char} {behind : List Char} :
    BehindClosing (c :: cs) behind ↔ (c = '*' ∧ cs = ['/']) ∨ BehindClosing cs behind := by
  simp only [BehindClosing, List.suffix_cons_iff, List.cons.injEq, eq_comm (a := '*'),
    eq_comm (b := cs)]

theorem runsTo_splitBlockComment (cs : List Char) :
    RunsTo BehindClosing (splitBlockComment cs).1 (splitBlockComment cs).2 := by
  fun_induction splitBlockComment cs with
  | case1 => exact .nil (.inl rfl)
  | case2 rest =>
    refine ⟨.inr List.suffix_rfl, fun front back htaken hback hclosing => ?_⟩
    have hlength := congrArg List.length htaken
    have hshort := hclosing.length_le
    have hpos := List.length_pos_iff.2 hback
    simp only [List.length_append, List.length_cons, List.length_nil] at hlength hshort
    omega
  | case3 c rest hclose r ih =>
    have hrest : r.1 ++ r.2 = rest := append_splitBlockComment rest
    refine .cons (by simp [BehindClosing]) ⟨?_, fun front back htaken hback hclosing => ?_⟩
    · exact ih.ends.imp_right fun h => behindClosing_cons_iff.2 (.inr h)
    · rcases behindClosing_cons_iff.1 hclosing with ⟨rfl, rfl⟩ | hclosing
      · refine hclose (back ++ r.2) rfl ?_
        rw [← hrest, htaken]
        rfl
      · exact ih.first front back htaken hback hclosing

theorem runsTo_splitDirective (cs : List Char) :
    RunsTo AtLastLineEnd (splitDirective cs).1 (splitDirective cs).2 := by
  fun_induction splitDirective cs with
  | case1 => exact .nil (.inl rfl)
  | case2 rest r ih =>
    refine .cons (by simp [AtLastLineEnd]) (.cons ?_ (ih.weaken fun front behind => ?_))
    · simp [AtLastLineEnd, Continues]
    · simp [AtLastLineEnd, continues_cons_iff]
  | case3 rest r ih =>
    refine .cons (by simp [AtLastLineEnd]) (.cons (by simp [AtLastLineEnd]) (.cons ?_
      (ih.weaken fun front behind => ?_)))
    · simp [AtLastLineEnd, Continues]
    · simp [AtLastLineEnd, continues_cons_iff]
  | case4 rest => exact .nil (.inr ⟨rfl, not_continues_nil⟩)
  | case5 c rest hline hreturn hc r ih =>
    have hrest : r.1 ++ r.2 = rest := append_splitDirective rest
    refine .cons (fun hplace => hc (Option.some.inj hplace.1))
      ⟨?_, fun front back htaken hback hplace => ?_⟩
    · -- The line end behind the directive is not joined by its last characters.
      refine ih.ends.imp_right fun hend => ⟨hend.1, fun hcontinues => ?_⟩
      obtain ⟨tail, htail⟩ := List.head?_eq_some_iff.1 hend.1
      rcases continues_cons_iff.1 hcontinues with ⟨hbackslash, hnil | hcr⟩ | hcontinues
      · exact hline tail hbackslash (by rw [← hrest, hnil, htail, List.nil_append])
      · exact hreturn tail hbackslash (by rw [← hrest, hcr, htail]; rfl)
      · exact hend.2 hcontinues
    · exact ih.first front back htaken hback
        ⟨hplace.1, fun hcontinues => hplace.2 (continues_cons_iff.2 (.inr hcontinues))⟩

/-! ## Fillers -/

/-- The end of a text in its last line. -/
def lastLine (cs : List Char) : List Char :=
  cs.rtakeWhile (· ≠ '\n')

theorem lastLine_concat (cs : List Char) (c : Char) :
    lastLine (cs ++ [c]) = if c = '\n' then [] else lastLine cs ++ [c] := by
  rw [lastLine, List.rtakeWhile_concat]
  by_cases hc : c = '\n' <;> simp [hc, lastLine]

/-- What can stand between two tokens: a blank, a comment in a line up to the end of the line, a
comment through the mark that closes it, or, with only blanks before it on its line, a directive up
to the end of a line that does not go on. Given are the text before it and behind it. -/
inductive Filler (before : List Char) : List Char → List Char → Prop
  | blank {c : Char} {rest : List Char} : isAsciiBlank c = true → Filler before [c] rest
  | lineComment {taken rest : List Char} :
    RunsTo AtLineEnd taken rest → Filler before ('/' :: '/' :: taken) rest
  | blockComment {taken rest : List Char} :
    RunsTo BehindClosing taken rest → Filler before ('/' :: '*' :: taken) rest
  | directive {taken rest : List Char} :
    (∀ c ∈ lastLine before, isBlank c = true) →
      RunsTo AtLastLineEnd taken rest → Filler before ('#' :: taken) rest

/-- Fillers that stand side by side, with the text before them and behind them. -/
inductive Fillers : List Char → List Char → List Char → Prop
  | nil (before rest : List Char) : Fillers before [] rest
  | cons {before piece more rest : List Char} :
    Filler before piece (more ++ rest) → Fillers (before ++ piece) more rest →
      Fillers before (piece ++ more) rest

theorem splitLineComment_eq_iff :
    splitLineComment (taken ++ rest) = (taken, rest) ↔ RunsTo AtLineEnd taken rest :=
  (runsTo_splitLineComment _).eq_iff (append_splitLineComment _)

theorem splitBlockComment_eq_iff :
    splitBlockComment (taken ++ rest) = (taken, rest) ↔ RunsTo BehindClosing taken rest :=
  (runsTo_splitBlockComment _).eq_iff (append_splitBlockComment _)

theorem splitDirective_eq_iff :
    splitDirective (taken ++ rest) = (taken, rest) ↔ RunsTo AtLastLineEnd taken rest :=
  (runsTo_splitDirective _).eq_iff (append_splitDirective _)

/-- A text is at the start of a line if no more than blanks stand in its last line. -/
theorem atLineStart_eq_true_iff (cs : List Char) :
    atLineStart true cs = true ↔ ∀ c ∈ lastLine cs, isBlank c = true := by
  induction cs using List.reverseRecOn with
  | nil => simp [atLineStart, lastLine]
  | append_singleton cs c ih =>
    have hstep : atLineStart true (cs ++ [c]) =
        (decide (c = '\n') || (atLineStart true cs && isBlank c)) := by
      simp [atLineStart]
    rw [hstep, lastLine_concat]
    by_cases hc : c = '\n'
    · simp [hc]
    · simp [hc, ih, or_imp, forall_and]

/-- What a gap starts with is a filler, and any filler is taken. -/
theorem gapPiece_eq_some_iff_filler {piece : List Char} :
    gapPiece? (atLineStart true before) cs = some (piece, rest) ↔
      cs = piece ++ rest ∧ Filler before piece rest := by
  rw [gapPiece_eq_some_iff]
  refine and_congr_right fun _ => ⟨fun h => ?_, fun h => ?_⟩
  · cases h with
    | blank h => exact .blank h
    | lineComment h => exact .lineComment (splitLineComment_eq_iff.1 h)
    | blockComment h => exact .blockComment (splitBlockComment_eq_iff.1 h)
    | directive hline h =>
      exact .directive ((atLineStart_eq_true_iff before).1 hline) (splitDirective_eq_iff.1 h)
  · cases h with
    | blank h => exact .blank h
    | lineComment h => exact .lineComment (splitLineComment_eq_iff.2 h)
    | blockComment h => exact .blockComment (splitBlockComment_eq_iff.2 h)
    | directive hline h =>
      exact .directive ((atLineStart_eq_true_iff before).2 hline) (splitDirective_eq_iff.2 h)

/-- A gap is a sequence of fillers. -/
theorem fillers_splitGap (before cs : List Char) :
    Fillers before (splitGap (atLineStart true before) cs).1
      (splitGap (atLineStart true before) cs).2 := by
  generalize hstart : atLineStart true before = start
  fun_induction splitGap start cs generalizing before with
  | case1 => exact .nil ..
  | case2 start cs piece rest hpiece more tail hmore ih =>
    subst hstart
    have hrest : more ++ tail = rest := by
      have := append_splitGap (atLineStart (atLineStart true before) piece) rest
      rwa [hmore] at this
    have htail := ih (before ++ piece) (atLineStart_append ..)
    rw [hmore] at htail
    refine .cons ?_ htail
    rw [hrest]
    exact (gapPiece_eq_some_iff_filler.1 hpiece).2

/-- Behind a gap no filler starts. -/
theorem not_filler_behind_gap {gap piece more : List Char}
    (h : splitGap (atLineStart true before) cs = (gap, piece ++ more)) :
    ¬Filler (before ++ gap) piece more := by
  intro hfiller
  have hnone := gapPiece_behind_splitGap h
  rw [← atLineStart_append, gapPiece_eq_some_iff_filler.2 ⟨rfl, hfiller⟩] at hnone
  cases hnone

end HeaderReflection.Token
