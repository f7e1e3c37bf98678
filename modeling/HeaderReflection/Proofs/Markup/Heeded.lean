import Mathlib.Data.List.Forall2
import HeaderReflection.Container.Build
import HeaderReflection.Proofs.Markup.Looks
import HeaderReflection.Proofs.Markup.Relex

/-!
# Where comments count

The scanner hands on some stretches of a file as they stand, with the comments in them. The tokens
before which such a comment stands are heeded; before all others the gaps of a file are mute.

* `heeded`: the tokens of a file whose gaps are handed on.
* `Enumerator.parseAll_textBefore`: the enumerators of a body, from its tokens in the file.
-/

namespace HeaderReflection

open Text (Position)

/-! ## Heeded tokens -/

/-- The value of an entry of an enum's body, if the entry is an enumerator. -/
def Declaration.valueTokens : List Token → List Token
  | [] => []
  | t :: rest =>
    if t.kind = .identifier then ((t :: rest).dropWhile fun u => !u.isPunctuation "=").tail else []

namespace Markup

/-- The tokens of a declaration that are heeded: none, unless its tokens are others when it is cut
out. -/
def heededDeclaration (first : Token) (more : List Token) (stop : Token) : List Token :=
  if isSteady ((first :: more).map Token.text) then [] else more ++ [stop]

/-- The tokens of an enum's body that are heeded: those of the values, or all if a number sign
stands at its start. -/
def heededBody (inside : List Token) (close : Token) : List Token :=
  if Token.sharpFirst (inside.map Token.text) then inside ++ [close]
  else (Declaration.splitEntries 0 inside).flatMap Declaration.valueTokens

/-- The heeded tokens of a member up to a terminator. -/
def heededMember (terminators : List String) (ts : List Token) : List Token :=
  match splitUntil terminators 0 ts with
  | (first :: more, some (stop, _)) => heededDeclaration first more stop
  | _ => []

/-- The heeded tokens of a container. -/
def heededContainer (ts : List Token) : List Token :=
  match splitUntil ["\x7b", ";"] 0 ts with
  | (first :: more, some (stop, rest)) =>
    heededDeclaration first more stop ++
      if first.text = "enum" then
        match splitBraces? 0 rest with
        | some (inside, close, _) => heededBody inside close
        | none => []
      else []
  | _ => []

/-- The heeded tokens of a marker: those of its attributes, which a generated-body marker does not
have, and those of what it announces. -/
def heededMarker (v : Vocabulary) (kind : MarkerKind) (opening : Token) (ts : List Token) :
    List Token :=
  match splitArguments v 0 opening.position ts with
  | .error _ => []
  | .ok (inside, close, rest) =>
    match kind with
    | .generatedBody => []
    | .container => inside ++ close :: heededContainer rest
    | .property => inside ++ close :: heededMember [";"] rest
    | .function => inside ++ close :: heededMember [";", "\x7b"] rest

/-- The heeded tokens of a namespace: those behind the first word of its name. -/
def heededNamespace (ts : List Token) : List Token :=
  match splitUntil ["\x7b", ";"] 0 ts with
  | (_ :: more, some (stop, _)) => if stop.isPunctuation "\x7b" then more ++ [stop] else []
  | _ => []

/-- The heeded tokens of one look. -/
def heededStep (v : Vocabulary) (t : Token) (rest : List Token) : List Token :=
  if t.kind ≠ .identifier then []
  else if t.text = "namespace" then heededNamespace rest
  else match v.classify t.text, rest with
    | some kind, opening :: more =>
      if opening.isPunctuation "(" then heededMarker v kind opening more else []
    | _, _ => []

/-- The tokens of a file whose gaps are handed on. -/
def heeded (v : Vocabulary) : List Token → List Token
  | [] => []
  | t :: rest => heededStep v t rest ++ heeded v (step v t rest).rest
termination_by ts => ts.length
decreasing_by exact length_step_lt v t rest

end Markup

/-! ## Alike tokens -/

namespace Token

variable {keep : Token → Bool} {t t' : Token} {ts ts' : List Token}

theorem Alike.isPunctuation (h : Alike keep t t') (p : String) :
    t'.isPunctuation p = t.isPunctuation p := by
  simp only [Token.isPunctuation, h.kind, h.text]

theorem text_alike (h : List.Forall₂ (Alike keep) ts ts') :
    ts'.map Token.text = ts.map Token.text := by
  induction h with
  | nil => rfl
  | cons ht _ ih => rw [List.map_cons, List.map_cons, ht.text, ih]

/-- A stretch whose gaps are kept is spelled alike. -/
theorem spell_alike (h : List.Forall₂ (Alike keep) ts ts') (hkeep : ∀ t ∈ ts, keep t = true) :
    spell ts' = spell ts := by
  induction h with
  | nil => rfl
  | cons ht _ ih =>
    have hrest := ih fun u hu => hkeep u (List.mem_cons_of_mem _ hu)
    rw [← String.toList_inj] at hrest ⊢
    rw [toList_spell_cons, toList_spell_cons, ht.gap (hkeep _ List.mem_cons_self), ht.text, hrest]

theorem textBefore_alike {close close' : Token} (h : List.Forall₂ (Alike keep) ts ts')
    (hclose : Alike keep close close') (hkeep : ∀ t ∈ ts ++ [close], keep t = true) :
    Markup.textBefore ts' close' = Markup.textBefore ts close := by
  rw [Markup.textBefore, Markup.textBefore,
    spell_alike h fun t ht => hkeep t (List.mem_append_left _ ht),
    hclose.gap (hkeep close (by simp))]

theorem alike_of_map_piece (h : ts'.map piece = ts.map piece) :
    List.Forall₂ (Alike keep) ts ts' := by
  induction ts generalizing ts' with
  | nil =>
    rw [List.map_eq_nil_iff.1 h]
    exact .nil
  | cons t ts ih =>
    obtain ⟨t', ts', rfl, hpiece, hrest⟩ := List.map_eq_cons_iff.1 h
    simp only [piece, Piece.mk.injEq] at hpiece
    exact .cons ⟨hpiece.2.1, hpiece.2.2, fun _ => hpiece.1⟩ (ih hrest)

end Token

namespace Declaration

open Token (Alike)

variable {keep : Token → Bool} {ts ts' : List Token}

theorem splitEntries_alike (h : List.Forall₂ (Alike keep) ts ts') (d : Int) :
    List.Forall₂ (List.Forall₂ (Alike keep)) (splitEntries d ts) (splitEntries d ts') := by
  induction h generalizing d with
  | nil => exact .cons .nil .nil
  | cons ht hrest ih =>
    rename_i t t' rest rest'
    rw [splitEntries, splitEntries, ht.isPunctuation, ht.text]
    split
    · exact .cons .nil (ih d)
    · have hparts := ih (d + enumDepth t.text)
      generalize splitEntries (d + enumDepth t.text) rest = ps at *
      generalize splitEntries (d + enumDepth t.text) rest' = ps' at *
      cases hparts with
      | nil => exact .cons (.cons ht .nil) .nil
      | cons hentry hentries => exact .cons (.cons ht hentry) hentries

theorem dropWhile_alike {p : Token → Bool} (hp : ∀ t t', Alike keep t t' → p t' = p t)
    (h : List.Forall₂ (Alike keep) ts ts') :
    List.Forall₂ (Alike keep) (ts.dropWhile p) (ts'.dropWhile p) := by
  induction h with
  | nil => exact .nil
  | cons ht hrest ih =>
    rw [List.dropWhile_cons, List.dropWhile_cons, hp _ _ ht]
    split
    · exact ih
    · exact .cons ht hrest

/-- Entries whose values are kept are the same enumerators. -/
theorem enumeratorOf_alike (h : List.Forall₂ (Alike keep) ts ts')
    (hkeep : ∀ t ∈ valueTokens ts, keep t = true) : enumeratorOf? ts' = enumeratorOf? ts := by
  cases h with
  | nil => rfl
  | cons ht hrest =>
    rename_i t t' rest rest'
    have hvalue := dropWhile_alike (p := fun u => !u.isPunctuation "=")
      (fun u u' hu => by rw [hu.isPunctuation]) (.cons ht hrest)
    simp only [valueTokens] at hkeep
    simp only [enumeratorOf?, ht.kind, ht.text]
    split
    · rename_i hkind
      rw [if_pos hkind] at hkeep
      unfold valueOf
      generalize (t :: rest).dropWhile _ = vs at *
      generalize (t' :: rest').dropWhile _ = vs' at *
      cases hvalue with
      | nil => rfl
      | cons _ hvs =>
        dsimp only
        rw [Token.spell_alike hvs hkeep]
    · rfl

theorem enumerators_alike (h : List.Forall₂ (Alike keep) ts ts')
    (hkeep : ∀ t ∈ (splitEntries 0 ts).flatMap valueTokens, keep t = true) :
    (splitEntries 0 ts').filterMap enumeratorOf? = (splitEntries 0 ts).filterMap enumeratorOf? := by
  have hentries := splitEntries_alike h 0
  generalize splitEntries 0 ts = es at *
  generalize splitEntries 0 ts' = es' at *
  induction hentries with
  | nil => rfl
  | cons he _ ih =>
    rw [List.flatMap_cons] at hkeep
    rw [List.filterMap_cons, List.filterMap_cons,
      enumeratorOf_alike he fun t ht => hkeep t (List.mem_append_left _ ht),
      ih fun t ht => hkeep t (List.mem_append_right _ ht)]

end Declaration

/-- The enumerators of a body are those of its tokens in the file. -/
theorem Enumerator.parseAll_textBefore {k : Token.Cursor} {cs : List Char}
    {inside tail : List Token} {close : Token}
    (h : Token.lexFrom k cs = inside ++ close :: tail)
    (hsharp : Token.sharpFirst (inside.map Token.text) = false) :
    Enumerator.parseAll (Markup.textBefore inside close) =
      (Declaration.splitEntries 0 inside).filterMap Declaration.enumeratorOf? := by
  have halike : List.Forall₂ (Token.Alike fun _ => true) inside
      (Token.lex (Markup.textBefore inside close)) :=
    Token.alike_of_map_piece (Token.pieces_between h hsharp)
  exact Declaration.enumerators_alike halike fun _ _ => rfl

end HeaderReflection
