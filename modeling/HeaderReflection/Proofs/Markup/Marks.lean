import HeaderReflection.Proofs.Markup.Looks

/-!
# Member markers

A word that announces a property or a function is a member marker if an opening parenthesis stands
right behind it. Of the markers that a look reads it heeds the first token alone, and yields for it
a member or a fault.

* `step_announces`: what a look yields for the token that it starts with.
* `announced?_read`: whether a look starts with a marker can be told from what it reads.
-/

namespace HeaderReflection

open Markup (Look looks)

/-- What a container can have many of. -/
inductive Member where
  | property | function
  deriving DecidableEq, Repr

/-- The member that a marker word announces. -/
def Member.ofKind? : MarkerKind → Option Member
  | .property => some .property
  | .function => some .function
  | .container | .generatedBody => none

/-- The member that an event declares. -/
def Event.member? : Event → Option Member
  | .property .. => some .property
  | .function .. => some .function
  | _ => none

/-- The member that a token marks, given the token right behind it. -/
def Token.member? (v : Vocabulary) (t : Token) (next : Option Token) : Option Member :=
  if t.kind = .identifier && next.any (·.isPunctuation "(") then
    (v.classify t.text).bind Member.ofKind?
  else none

/-- The member that is announced by a token with others behind it, if a look starts there. The word
`namespace` never announces one, whatever the vocabulary says. -/
def Token.announced? (v : Vocabulary) (t : Token) (rest : List Token) : Option Member :=
  if t.text = "namespace" then none else t.member? v rest.head?

/-- The member that is announced by the token that a look starts with. -/
def Markup.Look.announced? (v : Vocabulary) (l : Look) : Option Member :=
  match l.read with
  | [] => none
  | t :: rest => t.announced? v rest

/-- What is yielded where a member is announced or is not: that member or a fault, or none. -/
def Announces (m : Option Member) : Option (Except ScanFault Event) → Prop
  | none => m = none
  | some (.error _) => True
  | some (.ok e) => e.member? = m

namespace Token

variable {v : Vocabulary} {t : Token}

theorem member?_of_not_identifier (h : t.kind ≠ .identifier) (next : Option Token) :
    t.member? v next = none := by
  simp [member?, h]

theorem member?_of_not_opened {next : Option Token}
    (h : next.any (·.isPunctuation "(") = false) : t.member? v next = none := by
  simp [member?, h]

theorem member?_of_classify_none (h : v.classify t.text = none) (next : Option Token) :
    t.member? v next = none := by
  simp [member?, h]

theorem member?_of_opened {kind : MarkerKind} {opening : Token} (ht : t.kind = .identifier)
    (hkind : v.classify t.text = some kind) (hopening : opening.isPunctuation "(" = true) :
    t.member? v (some opening) = Member.ofKind? kind := by
  simp [member?, ht, hkind, hopening]

end Token

namespace Markup

variable (v : Vocabulary)

/-! ## What is yielded for a marker -/

theorem propertyStep_announces (position : Text.Position) (attributes : Excerpt)
    (ts : List Token) :
    Announces (some .property) (propertyStep position attributes ts).event := by
  unfold propertyStep
  split
  · exact rfl
  · exact trivial

theorem functionStep_announces (position : Text.Position) (attributes : Excerpt)
    (ts : List Token) :
    Announces (some .function) (functionStep position attributes ts).event := by
  unfold functionStep
  split
  · dsimp only
    split
    · split
      · exact rfl
      · exact trivial
    · exact rfl
  · exact trivial

theorem containerStep_announces (position : Text.Position) (attributes : Excerpt)
    (ts : List Token) : Announces none (containerStep position attributes ts).event := by
  unfold containerStep
  split
  · split
    · exact trivial
    · dsimp only
      split
      · split <;> exact rfl
      · exact rfl
  · exact trivial

theorem markerStep_announces (kind : MarkerKind) (position : Text.Position) (opening : Token)
    (ts : List Token) :
    Announces (Member.ofKind? kind) (markerStep v kind position opening ts).event := by
  unfold markerStep
  split
  · exact trivial
  · cases kind with
    | generatedBody => exact rfl
    | container => exact containerStep_announces ..
    | property => exact propertyStep_announces ..
    | function => exact functionStep_announces ..

theorem namespaceStep_announces (position : Text.Position) (ts : List Token) :
    Announces none (namespaceStep position ts).event := by
  unfold namespaceStep
  split
  · exact rfl
  · split
    · split <;> exact rfl
    · exact rfl

theorem wordStep_announces {t : Token} (ht : t.kind = .identifier) (rest : List Token) :
    Announces (t.announced? v rest) (wordStep v t rest).event := by
  unfold wordStep Token.announced?
  split
  · exact namespaceStep_announces ..
  · split
    · rename_i kind hkind
      split
      · rename_i opening more
        split
        · rename_i hopening
          rw [List.head?_cons, Token.member?_of_opened ht hkind hopening]
          exact markerStep_announces ..
        · rename_i hopening
          exact Token.member?_of_not_opened (by simpa using hopening)
      · exact Token.member?_of_not_opened rfl
    · rename_i hnone
      rw [Token.member?_of_classify_none hnone]
      split
      · split <;> exact rfl
      · exact rfl

/-- What a look yields for the token that it starts with. -/
theorem step_announces (t : Token) (rest : List Token) :
    Announces (t.announced? v rest) (step v t rest).event := by
  unfold step
  split
  · rename_i ht
    exact wordStep_announces v ht rest
  · rename_i ht
    have hnone : t.announced? v rest = none := by
      rw [Token.announced?, Token.member?_of_not_identifier ht, ite_self]
    rw [hnone]
    split
    · exact rfl
    · split <;> exact rfl

/-! ## The looks at a file -/

/-- A look at a marker reads more than the marker. -/
theorem length_step_of_announced {t : Token} {rest : List Token}
    (h : t.announced? v rest ≠ none) : (step v t rest).rest.length < rest.length := by
  unfold Token.announced? Token.member? at h
  split at h
  · exact absurd rfl h
  · rename_i hname
    split at h
    · rename_i hopened
      simp only [Bool.and_eq_true, decide_eq_true_eq] at hopened
      obtain ⟨ht, hopening⟩ := hopened
      cases hkind : v.classify t.text with
      | none => simp [hkind] at h
      | some kind =>
        cases rest with
        | nil => cases hopening
        | cons opening more =>
          have hlen := markerStep_length v kind t.position opening more
          simp only [List.head?_cons, Option.any_some] at hopening
          simp only [step, wordStep, ht, hname, hkind, hopening, if_true, if_false,
            List.length_cons]
          omega
    · exact absurd rfl h

/-- Whether a look starts with a marker can be told from what it reads. -/
theorem announced?_read {t : Token} {rest read : List Token}
    (h : rest = read ++ (step v t rest).rest) :
    t.announced? v read = t.announced? v rest := by
  cases read with
  | cons u read =>
    rw [h]
    rfl
  | nil =>
    have hnil : t.announced? v [] = none := by
      rw [Token.announced?, List.head?_nil, Token.member?_of_not_opened rfl, ite_self]
    rw [hnil]
    cases hm : t.announced? v rest with
    | none => rfl
    | some m =>
      have hsome : t.announced? v rest ≠ none := by simp [hm]
      have hlt := length_step_of_announced v hsome
      have hlen := congrArg List.length h
      rw [List.nil_append] at hlen
      omega

/-- What a look yields is what is announced by the token that it starts with. -/
theorem announces_of_mem_looks {ts : List Token} {l : Look} (h : l ∈ looks v ts) :
    Announces (l.announced? v) l.event := by
  fun_induction looks v ts with
  | case1 => cases h
  | case2 t rest s ih =>
    obtain ⟨read, hread, -, hlooks⟩ := looks_cons v t rest
    rw [looks] at hlooks
    rcases List.mem_cons.1 h with rfl | h
    · rw [(List.cons.inj hlooks).1]
      have hrest := (List.cons.inj hread).2
      have hsame : t.announced? v read = t.announced? v rest := announced?_read v hrest
      change Announces (t.announced? v read) (step v t rest).event
      rw [hsame]
      exact step_announces v t rest
    · exact ih h

end Markup

end HeaderReflection
