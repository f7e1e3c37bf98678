import HeaderReflection.Proofs.Attribute.Spelling
import HeaderReflection.Proofs.Declaration.Enumerators

/-!
# Cuts of the scanner

Where the scanner cuts tokens whose brackets are closed.

* `splitUntil_stop`: what stands before a terminator outside brackets.
* `splitBraces?_close`: what stands before the brace that closes a body.
* `splitArguments_close`: what stands before the parenthesis that closes an argument list.
* `text_excerptOf`: the text of a declaration is cut out as it stands.
-/

namespace HeaderReflection

open Declaration (bracketDepth enumDepth)
open Text (isBlank)

namespace Token

variable {t : Token} {m : String}

/-- Only punctuation looks like a delimiter. -/
theorem isPunctuation_iff (h : t.piece.Proper) (hm : m ∈ delimiters) :
    t.isPunctuation m = true ↔ t.text = m := by
  simp only [isPunctuation, Bool.and_eq_true, decide_eq_true_eq]
  refine ⟨fun h' => h'.2, fun htext => ⟨h ?_, htext⟩⟩
  rw [piece_text, htext]
  exact hm

end Token

theorem enumDepth_eq (s : String) : enumDepth s =
    if ["(", "[", "\x7b"].contains s then 1
    else if [")", "]", "\x7d"].contains s then -1 else 0 := by
  by_cases hopen : s = "<"
  · subst hopen
    decide
  · by_cases hclose : s = ">"
    · subst hclose
      decide
    · simp [enumDepth, bracketDepth, hopen, hclose]

namespace Markup

variable {d e : Int} {ts : List Token}

/-- Behind a token that is no terminator the search goes on, one level deeper behind an opening
bracket and one level up behind a closing one. -/
theorem splitUntil_cons {terminators : List String} {t : Token} {rest : List Token}
    (ht : t.piece.Proper) (hd : 0 ≤ d) (hmark : d = 0 → t.text ∉ terminators) :
    splitUntil terminators d.toNat (t :: rest) =
      (t :: (splitUntil terminators (d + enumDepth t.text).toNat rest).1,
        (splitUntil terminators (d + enumDepth t.text).toNat rest).2) := by
  have hgo : ¬(t.kind = .punctuation && d.toNat = 0 && terminators.contains t.text) = true := by
    simp only [Bool.and_eq_true, decide_eq_true_eq, List.contains_iff_mem]
    rintro ⟨⟨-, h0⟩, hm⟩
    exact hmark (by omega) hm
  have hinner : (if t.kind ≠ .punctuation then d.toNat
      else if ["(", "[", "\x7b"].contains t.text then d.toNat + 1
      else if [")", "]", "\x7d"].contains t.text then d.toNat - 1 else d.toNat) =
      (d + enumDepth t.text).toNat := by
    rw [enumDepth_eq]
    by_cases hkind : t.kind = .punctuation
    · rw [if_neg (not_not_intro hkind)]
      split
      · omega
      · split <;> omega
    · have hnone : ∀ l : List String, (∀ m ∈ l, m ∈ delimiters) → ¬l.contains t.text = true := by
        intro l hl hm
        exact hkind (ht (hl _ (List.contains_iff_mem.1 hm)))
      rw [if_pos hkind, if_neg (hnone _ (by decide)), if_neg (hnone _ (by decide)), Int.add_zero]
  rw [splitUntil, if_neg hgo]
  dsimp only
  rw [hinner]

theorem splitUntil_leads {terminators : List String} (hproper : ∀ t ∈ ts, t.piece.Proper)
    (h : Leads (enumDepth ∘ Token.text) (·.text ∈ terminators) d ts e) (hd : 0 ≤ d)
    (rest : List Token) :
    splitUntil terminators d.toNat (ts ++ rest) =
      (ts ++ (splitUntil terminators e.toNat rest).1, (splitUntil terminators e.toNat rest).2) := by
  induction ts generalizing d with
  | nil =>
    rw [Leads.nil_iff.1 h]
    rfl
  | cons t ts ih =>
    obtain ⟨hmark, hnext, hrest⟩ := h
    have htail := ih (fun u hu => hproper u (List.mem_cons_of_mem _ hu)) hrest hnext
    rw [Function.comp_apply] at htail
    rw [List.cons_append, splitUntil_cons (hproper t List.mem_cons_self) hd hmark, htail]
    rfl

/-- What stands before a terminator outside brackets. -/
theorem splitUntil_stop {terminators : List String} (hproper : ∀ t ∈ ts, t.piece.Proper)
    (h : Leads enumDepth (· ∈ terminators) 0 (ts.map Token.text) 0) {stop : Token}
    (hkind : stop.kind = .punctuation) (hstop : stop.text ∈ terminators) (rest : List Token) :
    splitUntil terminators 0 (ts ++ stop :: rest) = (ts, some (stop, rest)) := by
  have hsplit := splitUntil_leads hproper (Leads.map.1 h) (Int.le_refl 0) (stop :: rest)
  have hhere : splitUntil terminators 0 (stop :: rest) = ([], some (stop, rest)) := by
    rw [splitUntil, if_pos (by simp [hkind, hstop])]
  rw [show (0 : Int).toNat = 0 from rfl, hhere, List.append_nil] at hsplit
  exact hsplit

theorem splitBraces?_leads (hproper : ∀ t ∈ ts, t.piece.Proper)
    (h : Leads (braceDepth ∘ Token.text) (fun _ => False) d ts e) (hd : 0 ≤ d)
    (rest : List Token) : splitBraces? d.toNat (ts ++ rest) =
      (splitBraces? e.toNat rest).map fun (inside, close, tail) => (ts ++ inside, close, tail) := by
  induction ts generalizing d with
  | nil =>
    rw [Leads.nil_iff.1 h, List.nil_append]
    cases splitBraces? e.toNat rest <;> rfl
  | cons t ts ih =>
    obtain ⟨-, hnext, hrest⟩ := h
    have htail := ih (fun u hu => hproper u (List.mem_cons_of_mem _ hu)) hrest hnext
    have ht := hproper t List.mem_cons_self
    have hopen := Token.isPunctuation_iff ht (m := "\x7b") (by decide)
    have hclose := Token.isPunctuation_iff ht (m := "\x7d") (by decide)
    have hgo : ¬(t.isPunctuation "\x7d" && d.toNat = 0) = true := by
      simp only [Bool.and_eq_true, decide_eq_true_eq, hclose]
      rintro ⟨htext, h0⟩
      have hweight : braceDepth t.text = -1 := by rw [htext]; rfl
      rw [Function.comp_apply, hweight] at hnext
      omega
    have hinner : (if t.isPunctuation "\x7b" = true then d.toNat + 1
        else if t.isPunctuation "\x7d" = true then d.toNat - 1 else d.toNat) =
        (d + braceDepth t.text).toNat := by
      simp only [hopen, hclose, braceDepth]
      split
      · omega
      · split <;> omega
    rw [Function.comp_apply] at htail
    rw [List.cons_append, splitBraces?, if_neg hgo]
    dsimp only
    rw [hinner, htail, Option.map_map]
    rfl

/-- What stands before the brace that closes a body. -/
theorem splitBraces?_close (hproper : ∀ t ∈ ts, t.piece.Proper)
    (h : Leads braceDepth (fun _ => False) 0 (ts.map Token.text) 0) {close : Token}
    (hclose : close.isPunctuation "\x7d" = true) (rest : List Token) :
    splitBraces? 0 (ts ++ close :: rest) = some (ts, close, rest) := by
  have hsplit := splitBraces?_leads hproper (Leads.map.1 h) (Int.le_refl 0) (close :: rest)
  have hhere : splitBraces? 0 (close :: rest) = some ([], close, rest) := by
    rw [splitBraces?, if_pos (by simp [hclose])]
  rw [show (0 : Int).toNat = 0 from rfl, hhere] at hsplit
  simpa using hsplit

theorem breaksArguments_eq_false {t : Token} (h : ¬Breaks t.text) :
    breaksArguments {} t = false := by
  simp only [Breaks, not_or, List.mem_cons, List.not_mem_nil, or_false] at h
  obtain ⟨⟨hsemicolon, hopen, hclose⟩, hmarker⟩ := h
  have hclassify : Vocabulary.classify {} t.text = none := by
    simp only [Vocabulary.words, List.mem_append, not_or] at hmarker
    simp [Vocabulary.classify, hmarker]
  simp [breaksArguments, Token.isPunctuation, hsemicolon, hopen, hclose, hclassify]

theorem splitArguments_leads (hproper : ∀ t ∈ ts, t.piece.Proper)
    (hkeeps : ∀ t ∈ ts, ¬Breaks t.text)
    (h : Leads (parenDepth ∘ Token.text) (fun _ => False) d ts e) (hd : 0 ≤ d)
    (last : Text.Position) {close : Token} (rest : List Token)
    (hclose : ∀ last, splitArguments {} e.toNat last (close :: rest) = .ok ([], close, rest)) :
    splitArguments {} d.toNat last (ts ++ close :: rest) = .ok (ts, close, rest) := by
  induction ts generalizing d last with
  | nil =>
    rw [Leads.nil_iff.1 h]
    exact hclose last
  | cons t ts ih =>
    obtain ⟨-, hnext, hrest⟩ := h
    have htail := ih (fun u hu => hproper u (List.mem_cons_of_mem _ hu))
      (fun u hu => hkeeps u (List.mem_cons_of_mem _ hu)) hrest hnext t.position
    have ht := hproper t List.mem_cons_self
    have hbreaks := breaksArguments_eq_false (hkeeps t List.mem_cons_self)
    have hopened := Token.isPunctuation_iff ht (m := "(") (by decide)
    have hclosed := Token.isPunctuation_iff ht (m := ")") (by decide)
    have hgo : ¬(t.isPunctuation ")" && d.toNat = 0) = true := by
      simp only [Bool.and_eq_true, decide_eq_true_eq, hclosed]
      rintro ⟨htext, h0⟩
      have hweight : parenDepth t.text = -1 := by rw [htext]; rfl
      rw [Function.comp_apply, hweight] at hnext
      omega
    have hinner : (if t.isPunctuation "(" = true then d.toNat + 1
        else if t.isPunctuation ")" = true then d.toNat - 1 else d.toNat) =
        (d + parenDepth t.text).toNat := by
      simp only [hopened, hclosed, parenDepth]
      split
      · omega
      · split <;> omega
    rw [Function.comp_apply] at htail
    rw [List.cons_append, splitArguments, hbreaks, if_neg Bool.false_ne_true, if_neg hgo]
    dsimp only
    rw [hinner, htail]
    rfl

/-- What stands before the parenthesis that closes an argument list. -/
theorem splitArguments_close (hproper : ∀ t ∈ ts, t.piece.Proper)
    (hkeeps : ∀ t ∈ ts, ¬Breaks t.text)
    (h : Leads parenDepth (fun _ => False) 0 (ts.map Token.text) 0) (last : Text.Position)
    {close : Token} (hclose : close.isPunctuation ")" = true) (rest : List Token) :
    splitArguments {} 0 last (ts ++ close :: rest) = .ok (ts, close, rest) := by
  refine splitArguments_leads (d := 0) hproper hkeeps (Leads.map.1 h) (Int.le_refl 0) last rest ?_
  intro last
  have htext : close.text = ")" := by
    simp only [Token.isPunctuation, Bool.and_eq_true, decide_eq_true_eq] at hclose
    exact hclose.2
  have hbreaks : breaksArguments {} close = false :=
    breaksArguments_eq_false (by rw [htext]; decide)
  rw [splitArguments, hbreaks, if_neg Bool.false_ne_true, if_pos (by simp [hclose])]

/-- The text of a declaration is cut out as it stands. -/
theorem text_excerptOf {cs : List Char} {p : Piece} {ps : List Piece} {f : Char → Bool}
    (h : SpellsPieces cs (p :: ps) f) {first stop : Token} {more : List Token}
    (hfirst : first.text = p.text) (hmore : more.map Token.piece = ps)
    (hstop : stop.gap = "" ∨ stop.gap = " ") :
    (excerptOf first more stop).text = String.ofList cs := by
  have hspell : p.text.toList ++ Piece.spell ps = cs := by
    have hcs := h.spell
    rwa [Piece.spell_cons, h.tight p rfl, String.toList_empty, List.nil_append] at hcs
  have hend : Text.trimEnd stop.gap.toList = [] := by
    rcases hstop with hgap | hgap <;> (rw [hgap]; decide)
  have htext : (first.text ++ textBefore more stop).toList = cs ++ stop.gap.toList := by
    rw [textBefore, String.toList_append, String.toList_append, Piece.toList_spell, hmore, hfirst,
      ← List.append_assoc, hspell]
  rw [excerptOf, Text.trim, htext, Text.trimBlanks_append h.toReads.ne_nil
    (fun c hc => (h.head c hc).2) h.last, hend, List.append_nil]

end Markup

end HeaderReflection
