import HeaderReflection.Artifact.Options
import HeaderReflection.Proofs.Token.Fillers

/-!
# Texts without tokens

A text of blank lines, comments and directives has no token. A directive can take up several lines,
of which each but the last ends in a backslash.

* `RunsTo.append`: no first place is in a stretch that has none.
* `runsTo_lastLineEnd`: joined lines run to the end of the last of them.
* `flatten_gapPieces`: the pieces of a gap make it up.
* `Paragraph.isWhole_directive`: lines that are one directive.
* `gapPieces_lines`: the pieces of whole paragraphs are the paragraphs and their line ends.
* `lex_lines`: whole paragraphs have no token.
-/

namespace HeaderReflection

namespace Token

variable {cs front taken rest : List Char}

/-! ## Joined lines -/

/-- No first place is in a stretch that has none. -/
theorem RunsTo.append {place : List Char → List Char → Prop}
    (hfront : ∀ a b, front = a ++ b → b ≠ [] → ¬place a (b ++ (taken ++ rest)))
    (h : RunsTo (fun a => place (front ++ a)) taken rest) : RunsTo place (front ++ taken) rest := by
  induction front generalizing place with
  | nil => exact h
  | cons c front ih =>
    refine .cons ?_ (ih (fun a b hab hb => ?_) h)
    · have hhere := hfront [] (c :: front) rfl (by simp)
      rwa [List.cons_append, ← List.append_assoc] at hhere
    · exact hfront (c :: a) b (by rw [hab]; rfl) hb

/-- Whether a line goes on depends on what stands behind its last line end. -/
theorem continues_append_newline (front cs : List Char) :
    Continues (front ++ '\n' :: cs) ↔ Continues cs := by
  induction front with
  | nil => simp [continues_cons_iff]
  | cons c front ih =>
    have hne : front ++ '\n' :: cs ≠ [] ∧ front ++ '\n' :: cs ≠ ['\x0d'] := by
      constructor <;> intro h <;> have hmem := congrArg ('\n' ∈ ·) h <;> simp at hmem
    rw [List.cons_append, continues_cons_iff, ih]
    simp [hne]

/-- A text that ends in neither a backslash nor a carriage return goes on nowhere. -/
theorem not_continues_append {ds : List Char} (hne : ds ≠ [])
    (h : ∀ c ∈ ds, c ≠ '\\' ∧ c ≠ '\x0d') (cs : List Char) : ¬Continues (cs ++ ds) := by
  rintro (⟨pre, hpre⟩ | ⟨pre, hpre⟩) <;>
    have hlast := congrArg List.getLast? hpre <;>
    simp only [List.getLast?_append_of_ne_nil _ hne, List.getLast?_append_cons,
      List.getLast?_cons_cons, List.getLast?_singleton] at hlast
  · exact (h _ (List.mem_of_getLast? hlast.symm)).1 rfl
  · exact (h _ (List.mem_of_getLast? hlast.symm)).2 rfl

/-- Within a line stands no line end. -/
theorem newline_notMem_head? {a b behind : List Char} (h : '\n' ∉ cs) (hab : cs = a ++ b)
    (hb : b ≠ []) : '\n' ∉ (b ++ behind).head? := by
  obtain ⟨c, b, rfl⟩ := List.exists_cons_of_ne_nil hb
  rintro ⟨⟩
  exact h (by simp [hab])

/-- Lines with backslashes between them run to the end of the last one. -/
theorem runsTo_lastLineEnd {ls : List String} (hlines : ∀ l ∈ ls, '\n' ∉ l.toList)
    (hlast : ∀ l ∈ ls.getLast?, ¬Continues l.toList) (rest : List Char) :
    RunsTo AtLastLineEnd (" \\\n".intercalate ls).toList ('\n' :: rest) := by
  induction ls with
  | nil => exact .nil (.inr ⟨rfl, not_continues_nil⟩)
  | cons l ls ih =>
    have hl := hlines l List.mem_cons_self
    cases ls with
    | nil =>
      rw [String.intercalate_singleton]
      exact ⟨.inr ⟨rfl, hlast l rfl⟩, fun a b hab hb hend => newline_notMem_head? hl hab hb hend.1⟩
    | cons m ls =>
      have hmore := ih (fun n hn => hlines n (List.mem_cons_of_mem _ hn)) hlast
      have hsplit : (" \\\n".intercalate (l :: m :: ls)).toList =
          (l.toList ++ [' ', '\\']) ++ '\n' :: (" \\\n".intercalate (m :: ls)).toList := by
        rw [String.intercalate_cons_cons, String.toList_append, String.toList_append]
        simp
      rw [hsplit]
      -- The backslash joins the line end behind it, so no place is there, and the next line
      -- goes on.
      refine .append (fun a b hab hb hend => newline_notMem_head? (by simp [hl]) hab hb hend.1)
        (.cons (fun hend => hend.2 (.inl ⟨l.toList ++ [' '], by simp⟩)) ?_)
      exact hmore.weaken fun a behind => by
        rw [AtLastLineEnd, AtLastLineEnd, continues_append_newline]

/-! ## Pieces of a gap -/

/-- The blanks, comments and directives that a text starts with, one by one. -/
def gapPieces (lineStart : Bool) (cs : List Char) : List (List Char) :=
  match _h : gapPiece? lineStart cs with
  | none => []
  | some (piece, rest) => piece :: gapPieces (atLineStart lineStart piece) rest
termination_by cs.length
decreasing_by exact length_gapPiece_lt _h

theorem gapPieces_of_none {lineStart : Bool} (h : gapPiece? lineStart cs = none) :
    gapPieces lineStart cs = [] := by
  rw [gapPieces]
  split
  · rfl
  · simp_all

theorem gapPieces_of_some {lineStart : Bool} {piece : List Char}
    (h : gapPiece? lineStart cs = some (piece, rest)) :
    gapPieces lineStart cs = piece :: gapPieces (atLineStart lineStart piece) rest := by
  rw [gapPieces]
  split
  · simp_all
  · rename_i h'
    obtain ⟨rfl, rfl⟩ := Prod.mk.inj (Option.some.inj (h.symm.trans h'))
    rfl

theorem gapPieces_newline (lineStart : Bool) (rest : List Char) :
    gapPieces lineStart ('\n' :: rest) = ['\n'] :: gapPieces true rest :=
  gapPieces_of_some rfl

/-- The pieces of a gap make it up. -/
theorem flatten_gapPieces (lineStart : Bool) (cs : List Char) :
    (gapPieces lineStart cs).flatten = (splitGap lineStart cs).1 := by
  fun_induction gapPieces lineStart cs with
  | case1 lineStart cs h => rw [splitGap_of_none h, List.flatten_nil]
  | case2 lineStart cs piece rest h ih => rw [splitGap_of_some h, List.flatten_cons, ih]

end Token

/-! ## Paragraphs -/

theorem lines_cons (l : String) (ls : List String) : lines (l :: ls) = l ++ "\n" ++ lines ls := by
  simp [lines, String.join_cons]

/-- A blank line, the text of a comment, or the lines of a directive. -/
inductive Paragraph where
  | blank
  | comment (text : String)
  | directive (first : String) (more : List String)
  deriving DecidableEq, Repr

namespace Paragraph

/-- A paragraph as it stands in a text, up to its line end. -/
def text : Paragraph → String
  | .blank => ""
  | .comment text => "//" ++ text
  | .directive first more => "#" ++ " \\\n".intercalate (first :: more)

/-- No line has a line end in it, and the last line of a directive does not go on. -/
def IsWhole : Paragraph → Prop
  | .blank => True
  | .comment text => '\n' ∉ text.toList
  | .directive first more => (∀ l ∈ first :: more, '\n' ∉ l.toList) ∧
      ∀ l ∈ (first :: more).getLast?, ¬Token.Continues l.toList

/-- The pieces of the gap that a paragraph and its line end are. -/
def pieces : Paragraph → List (List Char)
  | .blank => [['\n']]
  | p => [p.text.toList, ['\n']]

/-- The first line of a directive, behind its number sign. -/
def heading? : Paragraph → Option String
  | .directive first _ => some first
  | _ => none

theorem flatten_pieces (p : Paragraph) : p.pieces.flatten = p.text.toList ++ ['\n'] := by
  cases p <;> simp [pieces, text]

theorem text_directive (first : String) (more : List String) :
    (directive first more).text = " \\\n".intercalate (("#" ++ first) :: more) := by
  cases more with
  | nil => simp [text]
  | cons m more => simp [text, String.intercalate_cons_cons, String.append_assoc]

/-- Lines without line ends are one directive if the last one ends in plain characters. -/
theorem isWhole_directive {first : String} {more : List String} (front tail : String)
    (hlines : ∀ l ∈ first :: more, '\n' ∉ l.toList)
    (hlast : (first :: more).getLast? = some (front ++ tail)) (hne : tail.toList ≠ [])
    (htail : ∀ c ∈ tail.toList, c ≠ '\\' ∧ c ≠ '\x0d') : (directive first more).IsWhole := by
  refine ⟨hlines, fun l hl => ?_⟩
  obtain rfl := Option.some.inj (hlast.symm.trans hl)
  rw [String.toList_append]
  exact Token.not_continues_append hne htail _

end Paragraph

namespace Token

variable {ps : List Paragraph}

/-- A whole paragraph is one piece, whatever stands behind its line end. -/
theorem gapPieces_paragraph {p : Paragraph} (h : p.IsWhole) (rest : List Char) :
    gapPieces true (p.text.toList ++ '\n' :: rest) = p.pieces ++ gapPieces true rest := by
  have hpiece : ∀ {piece : List Char}, Filler [] piece ('\n' :: rest) →
      gapPieces true (piece ++ '\n' :: rest) = [piece, ['\n']] ++ gapPieces true rest := by
    intro piece hfiller
    have htaken := gapPiece_eq_some_iff_filler.2 ⟨rfl, hfiller⟩
    rw [show atLineStart true [] = true from rfl] at htaken
    rw [gapPieces_of_some htaken, gapPieces_newline]
    rfl
  cases p with
  | blank => exact gapPieces_newline true rest
  | comment text =>
    have htext : (Paragraph.comment text).text.toList = '/' :: '/' :: text.toList := by
      simp [Paragraph.text]
    show gapPieces true _ = [_, ['\n']] ++ _
    rw [htext]
    exact hpiece (.lineComment ⟨.inr rfl, fun a b hab hb => newline_notMem_head? h hab hb⟩)
  | directive first more =>
    have htext : (Paragraph.directive first more).text.toList =
        '#' :: (" \\\n".intercalate (first :: more)).toList := by
      simp [Paragraph.text]
    show gapPieces true _ = [_, ['\n']] ++ _
    rw [htext]
    exact hpiece (.directive (by simp [lastLine]) (runsTo_lastLineEnd h.1 h.2 rest))

/-- The pieces of whole paragraphs are the paragraphs and their line ends. -/
theorem gapPieces_lines (h : ∀ p ∈ ps, p.IsWhole) :
    gapPieces true (lines (ps.map Paragraph.text)).toList = ps.flatMap Paragraph.pieces := by
  induction ps with
  | nil => exact gapPieces_of_none rfl
  | cons p ps ih =>
    have hfirst : (lines ((p :: ps).map Paragraph.text)).toList =
        p.text.toList ++ '\n' :: (lines (ps.map Paragraph.text)).toList := by
      simp [lines_cons]
    rw [hfirst, gapPieces_paragraph (h p List.mem_cons_self),
      ih fun q hq => h q (List.mem_cons_of_mem _ hq), List.flatMap_cons]

/-- Whole paragraphs have no token. -/
theorem lex_lines (h : ∀ p ∈ ps, p.IsWhole) : lex (lines (ps.map Paragraph.text)) = [] := by
  let cs := (lines (ps.map Paragraph.text)).toList
  have hgap : (splitGap true cs).1 = cs := by
    rw [← flatten_gapPieces, gapPieces_lines h, ← List.flatMap_id, List.flatMap_assoc]
    simp [cs, lines, String.toList_join, List.flatMap_map, Paragraph.flatten_pieces]
  have happ := append_splitGap true cs
  rw [hgap] at happ
  exact lexFrom_eq_nil (List.append_right_eq_self.1 happ)

end Token

end HeaderReflection
