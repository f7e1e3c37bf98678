import HeaderReflection.Proofs.Declaration.ReadBack
import HeaderReflection.Proofs.Token.Lexemes

/-!
# Functions as they are written

The parameters of a function as it is written may lack names, and may have default arguments.

* `Prototype.Canonical.tokens_text`: the text of a function falls into its tokens.
* `Prototype.Canonical.signatureOf_of_closed`: its parameters are read one by one, if brackets are
  closed in the default arguments and no comma stands outside brackets.
-/

namespace HeaderReflection

open Declaration
open Token (isComplete endsLexeme)

/-- A parameter as it is written, with its name and the tokens of its default argument, if it has
them. -/
structure Parameter where
  type : TypeRef
  name : Option String := none
  value : Option (List String) := none

/-- A function as it is written. -/
structure Prototype where
  isStatic : Bool := false
  returnType : TypeRef
  name : String
  parameters : List Parameter
  isConst : Bool := false

/-- Tokens in which brackets of all shapes are closed, angle brackets among them, and outside of
which no comma stands. -/
def IsClosed (ws : List String) : Prop :=
  Leads bracketDepth (· = ",") 0 ws 0

instance : DecidablePred IsClosed :=
  fun ws => inferInstanceAs (Decidable (Leads bracketDepth (· = ",") 0 ws 0))

theorem isBreak_of_endsLexeme {c : Char} (h : endsLexeme c = true) : isBreak c = true := by
  simp only [endsLexeme, Bool.or_eq_true, beq_iff_eq] at h
  rcases h with (rfl | rfl) | rfl <;> rfl

/-! ## Parameters -/

namespace Parameter

/-- The parameter without its default argument. -/
def bare (q : Parameter) : Parameter :=
  { q with value := none }

/-- The text of a parameter up to its default argument. -/
def bareText (q : Parameter) : String :=
  q.type.render ++ q.name.elim "" (" " ++ ·)

/-- The text of a parameter: its type, its name, and its default argument behind an equals sign. -/
def text (q : Parameter) : String :=
  q.bareText ++ q.value.elim "" fun ws => " " ++ " ".intercalate ("=" :: ws)

/-- The tokens of a parameter up to its default argument. -/
def bareTokens (q : Parameter) : List String :=
  q.type.tokens ++ q.name.toList

/-- The tokens of a parameter's text. -/
def tokens (q : Parameter) : List String :=
  q.bareTokens ++ q.value.elim [] ("=" :: ·)

/-- A parameter whose text falls into its tokens. -/
structure Canonical (q : Parameter) : Prop where
  type : q.type.Canonical [] false
  name : ∀ n ∈ q.name, IsIdentifier n
  value : ∀ ws ∈ q.value, ∀ w ∈ ws, isComplete w = true

variable {q : Parameter}

theorem Canonical.bare (h : q.Canonical) : q.bare.Canonical where
  type := h.type
  name := h.name
  value := by simp [Parameter.bare]

theorem tokens_bare (q : Parameter) : q.bare.tokens = q.bareTokens := by
  simp [tokens, bare, bareTokens]

theorem Canonical.spells_bareText (h : q.Canonical) :
    Spells q.bareText.toList q.bareTokens isBreak ∧ q.bareText ≠ "" := by
  obtain ⟨htype, hne⟩ := h.type.spells_render
  refine ⟨?_, append_ne_empty_left hne _⟩
  unfold bareText bareTokens
  cases hname : q.name with
  | none => simpa using htype
  | some n =>
    have hn := h.name n hname
    simpa [String.append_assoc] using htype.beforeWord hne hn

/-- The text of a parameter spells its tokens. -/
theorem Canonical.spells_text (h : q.Canonical) :
    Spells q.text.toList q.tokens endsLexeme ∧ q.text ≠ "" := by
  obtain ⟨hbare, hne⟩ := h.spells_bareText
  refine ⟨?_, append_ne_empty_left hne _⟩
  unfold text tokens
  cases hvalue : q.value with
  | none => simpa using hbare.weaken fun _ => isBreak_of_endsLexeme
  | some ws =>
    have hws : ∀ w ∈ "=" :: ws, isComplete w = true :=
      List.forall_mem_cons.2 ⟨by decide, h.value ws hvalue⟩
    simpa using hbare.beforeWords (toList_ne_nil hne) rfl (by simp) hws

theorem Canonical.tokens_ne_nil (h : q.Canonical) : q.tokens ≠ [] := by
  simp [tokens, bareTokens, h.type.tokens_ne_nil]

theorem leads_bareTokens (h : q.Canonical) {weight : String → Int} {mark : String → Prop}
    (hw : TypeRef.WeighsTypes weight mark) : Leads weight mark 0 q.bareTokens 0 := by
  refine (h.type.leads_tokens hw).append ?_
  cases hname : q.name with
  | none => rfl
  | some n => exact leads_word hw (h.name n hname)

/-- Only what stands before its default argument declares a parameter. -/
theorem Canonical.breakTop_tokens (h : q.Canonical) :
    (breakTop initializerMarks 0 q.tokens).1 = q.bareTokens := by
  have hleads : Leads bracketDepth (· ∈ initializerMarks) 0 q.bareTokens 0 :=
    leads_bareTokens h (.declaration (by decide))
  unfold tokens
  cases q.value with
  | none => simp [breakTop_of_leads hleads]
  | some ws => simp [breakTop_mark hleads (show "=" ∈ initializerMarks by decide)]

theorem Canonical.variableOf_eq_ok_iff (h : q.Canonical) {v : Variable} :
    variableOf q.tokens = .ok v ↔ variableOf q.bareTokens = .ok v := by
  have hsame : (breakTop initializerMarks 0 q.tokens).1 =
      (breakTop initializerMarks 0 q.bareTokens).1 := by
    rw [h.breakTop_tokens, ← tokens_bare, h.bare.breakTop_tokens, tokens_bare]
    rfl
  exact ⟨variableOf_congr hsame, variableOf_congr hsame.symm⟩

/-- The brackets of a parameter are closed, if those of its default argument are. -/
theorem Canonical.isClosed_tokens (h : q.Canonical) (hvalue : ∀ ws ∈ q.value, IsClosed ws) :
    IsClosed q.tokens := by
  refine .append (leads_bareTokens h (.declaration (by rintro _ rfl; decide))) ?_
  cases hq : q.value with
  | none => rfl
  | some ws =>
    have hequals : Leads bracketDepth (· = ",") 0 ["="] 0 := .plain (Int.le_refl 0) (by decide)
    exact hequals.append (hvalue ws hq)

end Parameter

/-- The variable at a place of a parameter list, which names it if nothing else does. -/
def Variable.placed (v : Variable) (place : Nat) : Variable :=
  { v with name := if v.name = "" then "arg" ++ toString place else v.name }

theorem parameterOf_of_variableOf {ts : List String} {v : Variable} (h : variableOf ts = .ok v)
    (function : String) (place : Nat) :
    parameterOf function place ts = .ok (v.placed place) := by
  unfold parameterOf
  rw [h]
  rfl

/-! ## Prototypes -/

namespace Prototype

/-- The function without default arguments. -/
def bare (p : Prototype) : Prototype :=
  { p with parameters := p.parameters.map Parameter.bare }

/-- The signature without its parameters. -/
def frame (p : Prototype) : Signature :=
  ⟨p.name, p.returnType, [], p.isStatic, p.isConst⟩

/-- The text of a function. -/
def text (p : Prototype) : String :=
  (if p.isStatic then "static " else "") ++ p.returnType.render ++ " " ++ p.name
    ++ ("(" ++ ", ".intercalate (p.parameters.map Parameter.text) ++ ")")
    ++ (if p.isConst then " const" else "")

/-- The tokens of a function's text. -/
def tokens (p : Prototype) : List String :=
  p.frame.leadingTokens ++ [p.name] ++ "(" ::
    ([","].intercalate (p.parameters.map Parameter.tokens) ++ ")" :: p.frame.trailingTokens)

/-- A function whose text falls into its tokens. -/
structure Canonical (p : Prototype) : Prop where
  returnType : p.returnType.Canonical [] false
  name : IsIdentifier p.name
  parameters : ∀ q ∈ p.parameters, q.Canonical

/-- Brackets are closed in the default arguments, and no comma stands outside brackets. -/
def ValuesClosed (p : Prototype) : Prop :=
  ∀ q ∈ p.parameters, ∀ ws ∈ q.value, IsClosed ws

variable {p : Prototype}

theorem Canonical.bare (h : p.Canonical) : p.bare.Canonical where
  returnType := h.returnType
  name := h.name
  parameters := by simpa [Prototype.bare] using fun q hq => (h.parameters q hq).bare

theorem valuesClosed_bare (p : Prototype) : p.bare.ValuesClosed := by
  simp [ValuesClosed, bare, Parameter.bare]

/-- The text of a function falls into its tokens. -/
theorem Canonical.tokens_text (h : p.Canonical) : Declaration.tokens p.text = p.tokens := by
  have hjoined := Spells.joined (f := endsLexeme) rfl fun q hq => (h.parameters q hq).spells_text
  have hinner := hjoined.append (.mark (c := ')') rfl isBreak) (by rintro c ⟨⟩; rfl) (by simp)
  have hall := (Spells.mark (c := '(') rfl fun _ => true).append hinner (by simp) (by simp)
  exact tokens_of_spells (Signature.spells_around (s := p.frame) h.returnType h.name
    (", ".intercalate (p.parameters.map Parameter.text)) (by simpa using hall))

theorem Canonical.parse_text (h : p.Canonical) : Signature.parse p.text = signatureOf p.tokens :=
  congrArg signatureOf h.tokens_text

/-- The parameters of a function are read one by one. -/
theorem Canonical.signatureOf_of_closed (h : p.Canonical) (hclosed : p.ValuesClosed)
    (hvoid : p.parameters.map Parameter.tokens ≠ [["void"]]) : signatureOf p.tokens =
      (parametersOf p.name 0 (p.parameters.map Parameter.tokens)).map fun ps =>
        { p.frame with parameters := ps } := by
  have hparts : ∀ part ∈ p.parameters.map Parameter.tokens, IsClosed part := by
    rw [List.forall_mem_map]
    exact fun q hq => (h.parameters q hq).isClosed_tokens (hclosed q hq)
  have hleads : Leads bracketDepth (fun _ => False) 0
      ([","].intercalate (p.parameters.map Parameter.tokens)) 0 :=
    .intercalate (by decide) id fun part hpart => (hparts part hpart).weaken fun _ _ => False.elim
  have hne : ∀ part ∈ p.parameters.map Parameter.tokens, part ≠ [] := by
    rw [List.forall_mem_map]
    exact fun q hq => (h.parameters q hq).tokens_ne_nil
  rw [← parameters_intercalate hne hparts hvoid]
  exact Signature.signatureOf_parameters (s := p.frame) h.returnType h.name hleads

end Prototype

end HeaderReflection
