import HeaderReflection.Declaration.Enumerators
import HeaderReflection.Proofs.Declaration.Prototypes

/-!
# Default arguments

Default arguments leave a signature as it is if brackets of all shapes are closed in them and no
comma stands outside brackets. Angle brackets count here: the arrow of a member access closes a
bracket, and a comparison or a shift to the left opens one.

* `Prototype.Canonical.signatureOf_bare_of_closed`: closed arguments leave a signature as it is.
* `isClosed_of_probes`: an argument that leaves two small signatures as they are is closed.
* `Prototype.parse_values_iff`: both ways together.
-/

namespace HeaderReflection

open Declaration
open Token (isComplete)

/-! ## Named parameters -/

theorem extendType_name_ne_empty {ty : TypeRef} (h : ty.name ≠ "") {n : String} (hn : n ≠ "") :
    (extendType ty false n).name ≠ "" := by
  unfold extendType
  split_ifs
  · exact h
  · exact h
  · exact h
  · exact h
  · exact extendName_ne_empty hn _ _
  · exact h

/-- A word behind a type leaves the type a name. -/
theorem TypeRef.Canonical.name_ofTokens_word {t : TypeRef} (h : t.Canonical [] false) {n : String}
    (hn : IsIdentifier n) : (TypeRef.ofTokens (t.tokens ++ [n])).name ≠ "" := by
  have hne : ∀ m ∈ "::" :: "*" :: "&" :: delimiters, n ≠ m :=
    fun m hm hnm => not_isIdentifier_of_mark hm (hnm ▸ hn)
  rw [TypeRef.ofTokens, h.collectType_tokens, collectType]
  simp only [if_neg (hne "::" (by decide)), if_neg (hne "[" (by decide)),
    if_neg (hne "<" (by decide))]
  rw [collectType]
  exact extendType_name_ne_empty h.name_ne_empty (ne_empty_of_isIdentifier hn)

namespace Parameter

variable {q : Parameter}

/-- A named parameter is read, even if its name is a reserved word. -/
theorem Canonical.exists_variableOf (h : q.Canonical) (hname : q.name.isSome) :
    ∃ v, variableOf q.bareTokens = .ok v := by
  obtain ⟨n, hq⟩ := Option.isSome_iff_exists.1 hname
  have hn := h.name n hq
  have htokens : q.bareTokens = q.type.tokens ++ [n] := by
    simp [bareTokens, hq]
  have hleads : Leads bracketDepth (· ∈ initializerMarks) 0 q.bareTokens 0 :=
    leads_bareTokens h (.declaration (by decide))
  have hbracket : n ≠ "]" := fun hb => not_isIdentifier_of_mark (by decide) (hb ▸ hn)
  have hstrip : stripBounds false (breakTop initializerMarks 0 q.bareTokens).1.reverse =
      some (n :: q.type.tokens.reverse, false) := by
    rw [breakTop_of_leads hleads, htokens, List.reverse_append, List.reverse_singleton,
      List.singleton_append, stripBounds, if_neg hbracket]
  have htype : (declared n q.type.tokens.reverse false).type.name ≠ "" := by
    dsimp only [declared]
    split
    · rw [List.reverse_reverse, h.type.ofTokens_tokens]
      exact h.type.name_ne_empty
    · rw [List.reverse_cons, List.reverse_reverse]
      exact h.type.name_ofTokens_word hn
  exact ⟨_, by rw [variableOf_eq hstrip, if_neg htype]⟩

end Parameter

theorem length_parametersOf {function : String} {place : Nat} {parts : List (List String)}
    {ps : List Variable} (h : parametersOf function place parts = .ok ps) :
    ps.length = parts.length := by
  induction parts generalizing place ps with
  | nil =>
    obtain rfl := Except.ok.inj h
    rfl
  | cons part parts ih =>
    rw [parametersOf] at h
    obtain ⟨p, -, h⟩ := bind_eq_ok_iff.1 h
    obtain ⟨qs, hqs, h⟩ := bind_eq_ok_iff.1 h
    obtain rfl := Except.ok.inj h
    rw [List.length_cons, List.length_cons, ih hqs]

/-- Named parameters are read alike with and without their default arguments. -/
theorem parametersOf_bare {qs : List Parameter}
    (h : ∀ q ∈ qs, q.Canonical ∧ q.name.isSome) (function : String) (place : Nat) :
    ∃ ps, parametersOf function place (qs.map (·.bare.tokens)) = .ok ps ∧
      parametersOf function place (qs.map Parameter.tokens) = .ok ps := by
  induction qs generalizing place with
  | nil => exact ⟨[], rfl, rfl⟩
  | cons q qs ih =>
    obtain ⟨hq, hname⟩ := h q List.mem_cons_self
    obtain ⟨v, hv⟩ := hq.exists_variableOf hname
    obtain ⟨ps, hbare, hps⟩ := ih (fun r hr => h r (List.mem_cons_of_mem _ hr)) (place + 1)
    have hone := parameterOf_of_variableOf (q.tokens_bare ▸ hv) function place
    have hone' := parameterOf_of_variableOf (hq.variableOf_eq_ok_iff.2 hv) function place
    refine ⟨v.placed place :: ps, ?_, ?_⟩
    · rw [List.map_cons, parametersOf, hone, hbare]
      rfl
    · rw [List.map_cons, parametersOf, hone', hps]
      rfl

/-! ## Closed arguments -/

namespace Prototype

variable {p : Prototype}

theorem map_tokens_ne_void (hnamed : ∀ q ∈ p.parameters, q.name.isSome) (h : p.Canonical) :
    p.parameters.map Parameter.tokens ≠ [["void"]] := by
  intro hvoid
  obtain ⟨q, hq, htokens⟩ := List.map_eq_singleton_iff.1 hvoid
  have hmem : q ∈ p.parameters := by simp [hq]
  obtain ⟨n, hn⟩ := Option.isSome_iff_exists.1 (hnamed q hmem)
  have htype := List.length_pos_iff.2 (h.parameters q hmem).type.tokens_ne_nil
  have hlong := congrArg List.length htokens
  simp only [Parameter.tokens, Parameter.bareTokens, hn, List.length_append, Option.toList_some,
    List.length_singleton] at hlong
  omega

/-- Closed default arguments leave a signature as it is. -/
theorem Canonical.signatureOf_bare_of_closed (h : p.Canonical)
    (hnamed : ∀ q ∈ p.parameters, q.name.isSome) (hclosed : p.ValuesClosed) :
    ∃ s, signatureOf p.bare.tokens = .ok s ∧ signatureOf p.tokens = .ok s ∧
      s.parameters.length = p.parameters.length := by
  have hnamed' : ∀ q ∈ p.bare.parameters, q.name.isSome := by
    simpa [Prototype.bare, Parameter.bare] using hnamed
  obtain ⟨ps, hbare, hps⟩ := parametersOf_bare
    (fun q hq => ⟨h.parameters q hq, hnamed q hq⟩) p.name 0
  refine ⟨{ p.frame with parameters := ps }, ?_, ?_, ?_⟩
  · rw [h.bare.signatureOf_of_closed p.valuesClosed_bare (map_tokens_ne_void hnamed' h.bare)]
    have hparts : p.bare.parameters.map Parameter.tokens = p.parameters.map (·.bare.tokens) := by
      simp [Prototype.bare]
    rw [hparts, show p.bare.name = p.name from rfl, hbare]
    rfl
  · rw [h.signatureOf_of_closed hclosed (map_tokens_ne_void hnamed h), hps]
    rfl
  · simpa using length_parametersOf hps

end Prototype

/-! ## Other arguments -/

theorem length_parameters {function : String} {ts : List String} {ps : List Variable}
    (h : parameters function ts = .ok ps) (hlong : 2 ≤ ts.length) :
    ps.length = (splitTop "," 0 ts).length := by
  unfold parameters at h
  rw [if_neg] at h
  · exact length_parametersOf h
  · simp only [Bool.or_eq_true, decide_eq_true_eq, not_or]
    constructor <;> (rintro rfl; simp at hlong)

theorem closeGroup_ne_nil {d : Int} {ts group after : List String}
    (h : closeGroup d ts = some (group, after)) : group ≠ [] := by
  cases ts with
  | nil => cases h
  | cons t ts =>
    rw [closeGroup] at h
    split at h
    · obtain ⟨rfl, -⟩ := Prod.mk.inj (Option.some.inj h)
      simp
    · obtain ⟨⟨g, a⟩, -, hg⟩ := Option.map_eq_some_iff.1 h
      obtain ⟨rfl, -⟩ := Prod.mk.inj hg
      simp

variable {ts rest group after : List String}

/-- A bracket that stays open takes the parenthesis that ends the parameters. -/
theorem closeGroup_of_open {mark : String → Prop} {e : Int} (h : Leads bracketDepth mark 0 ts e)
    (he : 0 < e) : closeGroup 1 (ts ++ [")"]) = none := by
  have hdepth : bracketDepth ")" = -1 := by decide
  have hlast : closeGroup (e + 1) [")"] = none := by
    rw [closeGroup, if_neg (by omega)]
    rfl
  rw [← Int.zero_add 1, closeGroup_leads h (Int.le_refl 0), hlast]
  rfl

/-- A comma outside brackets parts a group. -/
theorem splitTop_of_comma (h : IsClosed ts)
    (hclose : closeGroup 1 (ts ++ "," :: rest) = some (group, after)) :
    ts.length < group.dropLast.length ∧ 2 ≤ (splitTop "," 0 group.dropLast).length := by
  have hcomma : Leads bracketDepth (fun _ => False) 0 [","] 0 :=
    .plain (Int.le_refl 0) (by decide)
  have hplain : Leads bracketDepth (fun _ => False) 0 ts 0 := h.weaken fun _ _ => False.elim
  have hbefore := hplain.append hcomma
  rw [List.append_cons, ← Int.zero_add 1, closeGroup_leads hbefore (Int.le_refl 0)] at hclose
  obtain ⟨⟨g, a⟩, hg, hgroup⟩ := Option.map_eq_some_iff.1 hclose
  obtain ⟨rfl, rfl⟩ := Prod.mk.inj hgroup
  rw [List.dropLast_append_of_ne_nil (closeGroup_ne_nil hg), List.append_assoc,
    List.singleton_append, splitTop_leads h, splitTop, if_pos (by simp)]
  have hparts := List.length_pos_iff.2 (splitTop_ne_nil "," 0 g.dropLast)
  refine ⟨?_, ?_⟩
  · simp
  · rw [List.length_modifyHead, List.length_cons]
    omega

/-- A bracket that nothing opened ends a group. -/
theorem splitTop_of_closing (h : IsClosed ts) {t : String} (ht : bracketDepth t = -1)
    (hclose : closeGroup 1 (ts ++ t :: rest) = some (group, after)) :
    group.dropLast = ts ∧ (splitTop "," 0 ts).length = 1 := by
  rw [closeGroup_group h t ht] at hclose
  obtain ⟨rfl, -⟩ := Prod.mk.inj (Option.some.inj hclose)
  have hparts := splitTop_leads h []
  rw [List.append_nil] at hparts
  exact ⟨List.dropLast_concat, by rw [hparts]; simp [splitTop]⟩

/-- What is read of a function are the parameters in the group that its first parenthesis opens. -/
theorem Prototype.Canonical.exists_group {p : Prototype} (h : p.Canonical) {s : Signature}
    (hread : signatureOf p.tokens = .ok s) :
    ∃ group trailing,
      closeGroup 1 ([","].intercalate (p.parameters.map Parameter.tokens) ++
        ")" :: p.frame.trailingTokens) = some (group, trailing) ∧
      Declaration.parameters p.name group.dropLast = .ok s.parameters := by
  rw [Prototype.tokens, show p.name = p.frame.name from rfl,
    Signature.signatureOf_leadingTokens (s := p.frame) h.returnType h.name] at hread
  split at hread
  · cases hread
  · rename_i group trailing hclose
    obtain ⟨ps, hps, rfl⟩ := map_eq_ok_iff.1 hread
    exact ⟨group, trailing, hclose, hps⟩

/-- A function whose first parameter has the given default argument. -/
def probe (ws : List String) (others : List Parameter) : Prototype :=
  { returnType := .named "void", name := "f",
    parameters := ⟨.named "int", some "a", some ws⟩ :: others }

theorem canonical_probe {ws : List String} (hws : ∀ w ∈ ws, isComplete w = true)
    {others : List Parameter} (hothers : ∀ q ∈ others, q.Canonical) :
    (probe ws others).Canonical where
  returnType := TypeRef.canonical_named (by decide)
  name := show IsIdentifier "f" by decide
  parameters := List.forall_mem_cons.2
    ⟨⟨TypeRef.canonical_named (by decide), by simp; decide, by simpa using hws⟩, hothers⟩

theorem tokens_probe (ws : List String) (others : List Parameter) :
    (probe ws others).parameters.map Parameter.tokens =
      (["int", "a", "="] ++ ws) :: others.map Parameter.tokens := by
  have hint : (TypeRef.named "int").tokens = ["int"] := TypeRef.tokens_named (by decide)
  simp [probe, Parameter.tokens, Parameter.bareTokens, hint]

/-- If its default argument leaves a function as it is, as many parameters are read as it has. -/
theorem group_of_probe {ws : List String} (hws : ∀ w ∈ ws, isComplete w = true)
    {others : List Parameter} (hothers : ∀ q ∈ others, q.Canonical ∧ q.name.isSome) {s : Signature}
    (hbare : signatureOf (probe ws others).bare.tokens = .ok s)
    (hs : signatureOf (probe ws others).tokens = .ok s) :
    ∃ group trailing,
      closeGroup 1 ([","].intercalate ((["int", "a", "="] ++ ws) :: others.map Parameter.tokens) ++
        [")"]) = some (group, trailing) ∧
      parameters "f" group.dropLast = .ok s.parameters ∧
      s.parameters.length = others.length + 1 := by
  have hprobe := canonical_probe hws fun q hq => (hothers q hq).1
  obtain ⟨group, trailing, hclose, hread⟩ := hprobe.exists_group hs
  have hnamed : ∀ q ∈ (probe ws others).bare.parameters, q.name.isSome := by
    simp only [Prototype.bare, List.forall_mem_map]
    exact List.forall_mem_cons.2 ⟨rfl, fun q hq => (hothers q hq).2⟩
  obtain ⟨s', -, hs', hlength⟩ :=
    hprobe.bare.signatureOf_bare_of_closed hnamed (Prototype.valuesClosed_bare _)
  obtain rfl := Except.ok.inj (hbare.symm.trans hs')
  rw [tokens_probe] at hclose
  exact ⟨group, trailing, hclose, hread, by simpa [Prototype.bare, probe] using hlength⟩

theorem neg_one_le_bracketDepth (t : String) : -1 ≤ bracketDepth t := by
  unfold bracketDepth
  split_ifs <;> omega

/-- The functions that tell whether an argument is closed have no other parameter, or one behind
the argument. -/
def probed : List (List Parameter) :=
  [[], [⟨.named "int", some "b", none⟩]]

theorem canonical_probed {others : List Parameter} (h : others ∈ probed) {q : Parameter}
    (hq : q ∈ others) : q.Canonical ∧ q.name.isSome ∧ q.value = none := by
  have hone : Parameter.Canonical ⟨.named "int", some "b", none⟩ :=
    ⟨TypeRef.canonical_named (by decide), by simp; decide, by simp⟩
  rcases List.mem_pair.1 h with rfl | rfl
  · cases hq
  · rw [List.mem_singleton.1 hq]
    exact ⟨hone, rfl, rfl⟩

/-- An argument that leaves both functions as they are is closed. -/
theorem isClosed_of_probes {ws : List String} (hws : ∀ w ∈ ws, isComplete w = true)
    (h : ∀ others ∈ probed, ∃ s, signatureOf (probe ws others).bare.tokens = .ok s ∧
      signatureOf (probe ws others).tokens = .ok s) : IsClosed ws := by
  have hgroup : ∀ others ∈ probed, ∃ group trailing, ∃ s : Signature,
      closeGroup 1 ([","].intercalate ((["int", "a", "="] ++ ws) :: others.map Parameter.tokens) ++
        [")"]) = some (group, trailing) ∧
      parameters "f" group.dropLast = .ok s.parameters ∧
      s.parameters.length = others.length + 1 := by
    intro others hothers
    obtain ⟨s, hbare, hs⟩ := h others hothers
    obtain ⟨group, trailing, hall⟩ := group_of_probe hws
      (fun q hq => (canonical_probed hothers hq).imp_right And.left) hbare hs
    exact ⟨group, trailing, s, hall⟩
  have hstart : IsClosed ["int", "a", "="] := by decide
  rcases Leads.exists_or_stop bracketDepth (· = ",") (Int.le_refl 0) ws with
    ⟨e, hleads⟩ | ⟨front, t, back, e, rfl, hfront, hstop⟩
  · have hnonneg := hleads.nonneg (Int.le_refl 0)
    by_cases he : e = 0
    · rwa [he] at hleads
    obtain ⟨group, trailing, s, hclose, -⟩ := hgroup [] List.mem_cons_self
    rw [List.map_nil, List.intercalate_singleton,
      closeGroup_of_open (hstart.append hleads) (by omega)] at hclose
    cases hclose
  · have hnonneg := hfront.nonneg (Int.le_refl 0)
    have hdepth := neg_one_le_bracketDepth t
    obtain rfl : e = 0 := by omega
    have hbefore : IsClosed (["int", "a", "="] ++ front) := hstart.append hfront
    rcases hstop with ⟨-, rfl⟩ | hclosing
    · -- One parameter is read as two or more.
      obtain ⟨group, trailing, s, hclose, hread, hlength⟩ := hgroup [] List.mem_cons_self
      rw [List.map_nil, List.intercalate_singleton, List.append_assoc, List.append_assoc,
        List.cons_append, ← List.append_assoc] at hclose
      obtain ⟨hlong, hparts⟩ := splitTop_of_comma hbefore hclose
      simp only [List.length_append, List.length_cons, List.length_nil] at hlong hlength
      have hcount := length_parameters hread (by omega)
      omega
    · -- Two parameters are read as one.
      obtain ⟨group, trailing, s, hclose, hread, hlength⟩ := hgroup _ (List.mem_pair.2 (.inr rfl))
      rw [List.map_singleton, List.intercalate_cons_cons, ← List.append_assoc, List.append_assoc,
        List.append_assoc, List.append_assoc, List.cons_append] at hclose
      obtain ⟨hinner, hparts⟩ := splitTop_of_closing hbefore (by omega) hclose
      rw [hinner] at hread
      have hcount := length_parameters hread (by simp)
      rw [hcount, hparts] at hlength
      cases hlength

/-- Default arguments of a kind leave every signature as it is, however they are spaced, if and only
if the arguments of the kind are closed. -/
theorem Prototype.parse_values_iff {values : List String → Prop}
    (hvalues : ∀ ws, values ws → ∀ w ∈ ws, isComplete w = true) :
    (∀ p : Prototype, p.Canonical →
      (∀ q ∈ p.parameters, q.name.isSome ∧ ∀ ws ∈ q.value, values ws) →
        ∃ s, Signature.parse p.bare.text = .ok s ∧
          ∀ text, Declaration.tokens text = p.tokens → Signature.parse text = .ok s) ↔
      ∀ ws, values ws → IsClosed ws := by
  constructor
  · intro h ws hvalue
    refine isClosed_of_probes (hvalues ws hvalue) fun others hmem => ?_
    have hprobe := canonical_probe (hvalues ws hvalue) fun q hq => (canonical_probed hmem hq).1
    obtain ⟨s, hbare, hs⟩ := h (probe ws others) hprobe <| by
      refine List.forall_mem_cons.2 ⟨⟨rfl, by simpa using hvalue⟩, fun q hq => ?_⟩
      obtain ⟨-, hname, hnone⟩ := canonical_probed hmem hq
      exact ⟨hname, by simp [hnone]⟩
    have htext := hs _ hprobe.tokens_text
    rw [hprobe.bare.parse_text] at hbare
    rw [hprobe.parse_text] at htext
    exact ⟨s, hbare, htext⟩
  · intro h p hp hparameters
    obtain ⟨s, hbare, hs, -⟩ := hp.signatureOf_bare_of_closed (fun q hq => (hparameters q hq).1)
      fun q hq ws hws => h ws ((hparameters q hq).2 ws hws)
    refine ⟨s, by rw [hp.bare.parse_text, hbare], fun text htext => ?_⟩
    rw [Signature.parse, htext, hs]

/-- A member function with two default arguments. -/
def firePrototype : Prototype :=
  { returnType := .named "bool", name := "Fire", isConst := true
    parameters :=
      [⟨.named "int", some "count", some ["min", "(", "1", ",", "2", ")"]⟩,
        ⟨{ name := "Vec3", isConst := true, isReference := true }, some "dir",
          some ["Vec3", "\x7b", "\x7d"]⟩] }

theorem canonical_firePrototype : firePrototype.Canonical := by
  have hvector : TypeRef.Canonical [] false
      { name := "Vec3", isConst := true, isReference := true } := by
    have hname : (TypeRef.named "Vec3").Canonical [] false := TypeRef.canonical_named (by decide)
    cases hname with
    | intro name arguments => exact .intro name (by simp)
  refine ⟨TypeRef.canonical_named (by decide), show IsIdentifier "Fire" by decide, ?_⟩
  refine List.forall_mem_cons.2 ⟨⟨TypeRef.canonical_named (by decide), ?_, ?_⟩,
    List.forall_mem_cons.2 ⟨⟨hvector, ?_, ?_⟩, by simp⟩⟩
  all_goals
    simp only [Option.mem_some_iff, forall_eq']
    decide

theorem parse_firePrototype :
    (∀ ws, (ws = ["min", "(", "1", ",", "2", ")"] ∨ ws = ["Vec3", "\x7b", "\x7d"]) →
      ∀ w ∈ ws, isComplete w = true) ∧
    ∃ s, Signature.parse "bool Fire(int count, const Vec3& dir) const" = .ok s ∧
      Signature.parse "bool Fire(int count = min(1, 2), const Vec3& dir = Vec3\x7b\x7d) const" =
        .ok s := by
  have hcomplete : ∀ ws, (ws = ["min", "(", "1", ",", "2", ")"] ∨ ws = ["Vec3", "\x7b", "\x7d"]) →
      ∀ w ∈ ws, isComplete w = true := by
    rintro ws (rfl | rfl) <;> decide
  obtain ⟨s, hbare, hs⟩ := (Prototype.parse_values_iff hcomplete).2
    (by rintro ws (rfl | rfl) <;> decide) firePrototype canonical_firePrototype
    (by simp [firePrototype])
  exact ⟨hcomplete, s, hbare, hs _ (by decide +kernel)⟩

/-- The arrow of a default argument ends the parameters, though round, square and curly brackets
are closed in it. -/
theorem parameters_lost_behind_arrow :
    (∀ w ∈ ["p", "-", ">", "n"], isComplete w = true) ∧
      Leads enumDepth (· = ",") 0 ["p", "-", ">", "n"] 0 ∧
      Declaration.tokens "p->n" = ["p", "-", ">", "n"] ∧
      (Signature.parse "void f(int a, int b)").toOption.map
        (·.parameters.map Variable.name) = some ["a", "b"] ∧
      (Signature.parse "void f(int a = p->n, int b)").toOption.map
        (·.parameters.map Variable.name) = some ["a"] := by
  refine ⟨by decide, by decide, ?_, ?_, ?_⟩ <;> decide +kernel

end HeaderReflection
