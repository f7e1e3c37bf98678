import HeaderReflection.Proofs.Declaration.Enumerators
import HeaderReflection.Proofs.Declaration.Headers

/-!
# Declarations up to their terminators

What the scanner asks of a declaration to cut it off whole: its brackets are closed, and no
terminator stands outside them. Angle brackets are none here.

* `Variable.Canonical.declares`, `Signature.Canonical.declares`: members.
* `RecordHeader.Canonical.declares`, `EnumHeader.Canonical.declares`: the headers of containers.
* `declares_path`: the names of namespaces.
-/

namespace HeaderReflection

open Declaration

/-- A text is cut into the tokens of a declaration: it has one at least, and in its tokens brackets
are closed and no terminator stands outside them. -/
structure Declares (terminators : List String) (text : String) (texts : List String) : Prop where
  spells : Spells text.toList texts isBreak
  ne_empty : text ≠ ""
  leads : Leads enumDepth (· ∈ terminators) 0 texts 0

/-- The depths that the scanner counts. -/
theorem TypeRef.WeighsTypes.scanner {mark : String → Prop}
    (h : ∀ s, mark s → s ∈ [";", "\x7b"]) : WeighsTypes enumDepth mark where
  plain s hs := enumDepth_eq_zero fun m hm he => hs (he ▸ hm)
  comma := by decide
  opening := by decide
  closing := by decide
  angles := .inr ⟨by decide, by decide, fun hm => absurd (h _ hm) (by decide)⟩
  marks s hm := by
    have hall : ∀ s ∈ [";", "\x7b"], s ∈ delimiters ∧ s ∉ ["[", "]", "<", ">"] := by decide
    exact hall s (h s hm)

variable {terminators : List String}

theorem Variable.Canonical.declares {v : Variable} (h : v.Canonical) :
    Declares [";"] v.text v.tokens where
  spells := h.spells_text.1
  ne_empty := h.spells_text.2
  leads := h.leads_tokens (.scanner (by simp))

theorem Signature.Canonical.declares {s : Signature} (h : s.Canonical) :
    Declares [";", "\x7b"] s.text s.tokens where
  spells := h.spells_text.1
  ne_empty := h.spells_text.2
  leads := by
    have hw : TypeRef.WeighsTypes enumDepth (· ∈ [";", "\x7b"]) := .scanner fun _ hm => hm
    have hgroup : Leads enumDepth (· ∈ [";", "\x7b"]) 0
        ("(" :: ([","].intercalate (s.parameters.map Variable.tokens) ++ [")"])) 0 :=
      .group (by decide) (by decide) (by decide)
        (leads_parameters h.parameters (.scanner fun _ => False.elim))
    have hconst : Leads enumDepth (· ∈ [";", "\x7b"]) 0 s.trailingTokens 0 := by
      unfold Signature.trailingTokens
      cases s.isConst
      · rfl
      · exact leads_word hw (by decide)
    have hfront := Signature.leads_leadingTokens h.returnType h.name hw
    simpa [Signature.tokens, Signature.trailingTokens] using hfront.append (hgroup.append hconst)

theorem leads_words {ws : List String} (h : ∀ w ∈ ws, w = "::" ∨ w = ":" ∨ IsIdentifier w) :
    Leads enumDepth (· ∈ ["\x7b", ";"]) 0 ws 0 := by
  refine .plain (Int.le_refl 0) fun w hw => ?_
  rcases h w hw with rfl | rfl | hid
  · decide
  · decide
  · have hmark : ∀ m ∈ delimiters, w ≠ m := by
      rintro m hm rfl
      have hnone : ∀ m ∈ delimiters, ¬IsIdentifier m := by decide
      exact hnone w hm hid
    refine ⟨enumDepth_eq_zero hmark, ?_⟩
    simp [hmark ";" (by decide), hmark "\x7b" (by decide)]

/-- The names of a namespace. -/
theorem declares_path {path : List String} (hne : path ≠ []) (h : ∀ s ∈ path, IsIdentifier s) :
    Declares ["\x7b", ";"] ("::".intercalate path) (path.intersperse "::") where
  spells := (TypeName.spells_path hne h).weaken fun _ hc => (ends_of_isBreak hc).1
  ne_empty := TypeName.path_ne_empty hne h
  leads := leads_words fun w hw => (mem_of_mem_intersperse hw).imp_right fun hm => .inr (h w hm)

theorem RecordHeader.Canonical.declares {h : RecordHeader} (hc : h.Canonical) :
    Declares ["\x7b", ";"] h.text h.tokens where
  spells := hc.spells_text.1
  ne_empty := hc.spells_text.2
  leads := by
    have hw : TypeRef.WeighsTypes enumDepth (· ∈ ["\x7b", ";"]) := .scanner (by simp)
    have hkind : IsIdentifier h.kind.word := by
      cases h.kind <;> decide
    unfold RecordHeader.tokens
    split
    · exact leads_words (by simp [hkind, hc.name])
    · have hbases : Leads enumDepth (· ∈ ["\x7b", ";"]) 0
          ([","].intercalate (h.bases.map Base.tokens)) 0 := by
        refine .intercalate (by decide) (by decide) fun part hpart => ?_
        obtain ⟨b, hb, rfl⟩ := List.mem_map.1 hpart
        exact (leads_word hw (Base.isIdentifier_access b.access)).append
          ((hc.bases b hb).leads_tokens hw)
      have hfront : Leads enumDepth (· ∈ ["\x7b", ";"]) 0 [h.kind.word, h.name, ":"] 0 :=
        leads_words (by simp [hkind, hc.name])
      exact hfront.append hbases

theorem EnumHeader.Canonical.declares {h : EnumHeader} (hc : h.Canonical) :
    Declares ["\x7b", ";"] h.text h.tokens where
  spells := hc.spells_text.1
  ne_empty := hc.spells_text.2
  leads := by
    have hw : TypeRef.WeighsTypes enumDepth (· ∈ ["\x7b", ";"]) := .scanner (by simp)
    have henum : Leads enumDepth (· ∈ ["\x7b", ";"]) 0
        (if h.isScoped then ["enum", "class"] else ["enum"]) 0 := by
      cases h.isScoped <;> exact leads_words (by decide)
    unfold EnumHeader.tokens
    refine henum.append ((leads_word hw hc.name).append ?_)
    cases hunderlying : h.underlying with
    | none => rfl
    | some t =>
      have hcolon : Leads enumDepth (· ∈ ["\x7b", ";"]) 0 [":"] 0 := leads_words (by simp)
      exact hcolon.append ((hc.underlying t hunderlying).leads_tokens hw)

end HeaderReflection
