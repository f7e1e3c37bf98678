import HeaderReflection.Proofs.Scope.Members

/-!
# Markers and the containers around them

Which container encloses a marker can be told from the braces of a file, once it is known which of
them open the body of a container. A container that is recorded has one member for each marker that
it encloses, but for those that are swallowed: the markers inside of what a look at another one
reads.

* `Nest.Shows.look`: behind a faithful look the braces that are open show what the builder has open.
* `Nest.heeded_placesOf`: the containers around the markers that faithful looks start with are those
  that the builder has open.
* `members_counted`: the members of a container are the markers that it encloses, less the swallowed
  ones.
* `members_swallowed`: a data member without a semicolon takes the marker behind it.
-/

namespace HeaderReflection

open Markup (Look looks Reports)

/-! ## Places of a file -/

/-- What a token is to the look that reads it. -/
inductive Role where
  /-- The first token. -/
  | head
  /-- The brace that opens the body of the container with a slot. -/
  | body (slot : Nat)
  /-- A token of a function's body, which is skipped. -/
  | skipped
  | inner
  deriving DecidableEq, Repr

/-- The container whose body a token opens. -/
def Role.slot? : Role → Option Nat
  | .body slot => some slot
  | _ => none

/-- A token of a file, and what it is to its look. -/
structure Place where
  token : Token
  role : Role
  deriving DecidableEq, Repr

namespace Markup.Look

/-- What stands behind the header of what a look at a marker reads. -/
def behind (v : Vocabulary) (l : Look) : List Token :=
  match splitArguments v 0 .start (l.read.drop 2) with
  | .error _ => []
  | .ok (_, _, rest) => restAfter (splitUntil ["\x7b", ";"] 0 rest).2

/-- The body that a look reads: that of an enum or of a function. -/
def body (v : Vocabulary) (l : Look) : List Token :=
  match l.event with
  | some (.ok (.container _ _ declaration _)) =>
    if isEnumDeclaration declaration.text then l.behind v else []
  | some (.ok (.function ..)) => l.behind v
  | _ => []

/-- What the token at an index is to a look. A container that the look reads has the given slot. -/
def role (v : Vocabulary) (slot : Nat) (l : Look) (index : Nat) : Role :=
  let after := l.read.length - (index + 1)
  if index = 0 then .head
  else match l.event with
    | some (.ok (.container ..)) => if after = (l.body v).length then .body slot else .inner
    | some (.ok (.function ..)) => if after < (l.body v).length then .skipped else .inner
    | _ => .inner

/-- The tokens that a look reads as places. -/
def places (v : Vocabulary) (slot : Nat) (l : Look) : List Place :=
  l.read.mapIdx fun index t => ⟨t, l.role v slot index⟩

/-- The number of containers that a look reads. -/
def containers (l : Look) : Nat :=
  match l.event with
  | some (.ok (.container ..)) => 1
  | _ => 0

end Markup.Look

/-- The tokens that looks read as places. The number of containers before them is given. -/
def placesOf (v : Vocabulary) : Nat → List Look → List Place
  | _, [] => []
  | slot, l :: ls => l.places v slot ++ placesOf v (slot + l.containers) ls

/-! ## Marks -/

/-- The braces that are open at a place, innermost first, each with the slot of the container whose
body it opens. -/
abbrev Nest := List (Option Nat)

namespace Nest

/-- The innermost container. -/
def innermost? (σ : Nest) : Option Nat :=
  σ.findSome? id

/-- The open braces behind a place. -/
def pass (σ : Nest) (p : Place) : Nest :=
  match p.token.brace? with
  | some .opening => p.role.slot? :: σ
  | some .closing => σ.tail
  | none => σ

/-- The open braces behind places. -/
def passAll (σ : Nest) (ps : List Place) : Nest :=
  ps.foldl pass σ

/-- The mark at a place, given the place right behind it. -/
def mark? (v : Vocabulary) (σ : Nest) (p : Place) (next : Option Place) : Option Mark :=
  if p.role = .skipped then none
  else (p.token.member? v (next.map Place.token)).map fun m => ⟨m, σ.innermost?⟩

/-- The marks at places, and whether a look starts there that heeds them. -/
def marks (v : Vocabulary) : Nest → List Place → List (Mark × Bool)
  | _, [] => []
  | σ, p :: rest =>
    let heeded := p.role = .head && p.token.text ≠ "namespace"
    (σ.mark? v p rest.head?).toList.map (·, heeded) ++ marks v (σ.pass p) rest

end Nest

/-- The marks of a file, and whether a look heeds them. -/
def fileMarks (v : Vocabulary) (source : String) : List (Mark × Bool) :=
  Nest.marks v [] (placesOf v 0 (looks v (Token.lex source)))

/-- The marks that no look heeds. -/
def swallowed (v : Vocabulary) (source : String) : List Mark :=
  ((fileMarks v source).filter fun k => !k.2).map Prod.fst

/-! ## Tokens of places -/

section Places

variable (v : Vocabulary) (slot : Nat)

theorem token_places (l : Look) : (l.places v slot).map Place.token = l.read := by
  refine List.ext_getElem (by simp [Look.places]) fun k hk hk' => ?_
  simp [Look.places]

theorem token_placesOf (ls : List Look) :
    (placesOf v slot ls).map Place.token = ls.flatMap Look.read := by
  induction ls generalizing slot with
  | nil => rfl
  | cons l ls ih => rw [placesOf, List.map_append, token_places, ih, List.flatMap_cons]

/-- A look starts at its first token alone. -/
theorem places_cons {l : Look} {t : Token} {read : List Token} (h : l.read = t :: read) :
    ∃ ps : List Place, l.places v slot = ⟨t, .head⟩ :: ps ∧ ∀ p ∈ ps, p.role ≠ .head := by
  refine ⟨_, by rw [Look.places, h, List.mapIdx_cons]; rfl, fun p hp => ?_⟩
  obtain ⟨k, hk, rfl⟩ := List.mem_iff_getElem.1 hp
  simp only [List.getElem_mapIdx, Look.role, Nat.add_eq_zero_iff, Nat.one_ne_zero, and_false,
    if_false]
  split
  · split <;> simp
  · split <;> simp
  · simp

end Places

/-! ## Open braces -/

/-- The containers that are open, with the depths of their bodies. -/
def Nest.frames : Nest → List (Nat × Nat)
  | [] => []
  | some slot :: σ => (slot, σ.length + 1) :: frames σ
  | none :: σ => frames σ

/-- The open scopes are those of the open braces. -/
structure Nest.Shows (σ : Nest) (s : Scopes) : Prop where
  depth : s.depth = σ.length
  frames : s.frames = σ.frames

namespace Nest

variable {σ : Nest} {s : Scopes} {l : Look}

theorem passAll_append (σ : Nest) (ps qs : List Place) :
    σ.passAll (ps ++ qs) = (σ.passAll ps).passAll qs :=
  List.foldl_append

theorem Shows.innermost?_eq (h : σ.Shows s) : s.innermost? = σ.innermost? := by
  have hframes : ∀ σ : Nest, σ.frames.head?.map Prod.fst = σ.innermost? := by
    intro σ
    induction σ with
    | nil => rfl
    | cons slot? σ ih =>
      cases slot? with
      | none => exact ih
      | some slot => rfl
  rw [Scopes.innermost?, h.frames, hframes]

theorem frames_le (σ : Nest) : ∀ f ∈ σ.frames, f.2 ≤ σ.length := by
  induction σ with
  | nil => simp [frames]
  | cons slot? σ ih =>
    intro f hf
    cases slot? with
    | none => exact Nat.le_succ_of_le (ih f hf)
    | some slot =>
      rcases List.mem_cons.1 hf with rfl | hf
      · exact Nat.le_refl _
      · exact Nat.le_succ_of_le (ih f hf)

/-- Braces with partners leave open what was open before. -/
theorem passAll_of_depthAfter {ps : List Place} {depth after : Nat}
    (h : Brace.depthAfter depth (Token.braces (ps.map Place.token)) = some after) (top : Nest)
    (htop : top.length = depth) (σ : Nest) :
    ∃ top' : Nest, top'.length = after ∧ passAll (top ++ σ) ps = top' ++ σ := by
  induction ps generalizing depth top with
  | nil => exact ⟨top, htop.trans (Option.some.inj h), rfl⟩
  | cons p ps ih =>
    rw [List.map_cons, Token.braces, List.filterMap_cons] at h
    have hpass : passAll (top ++ σ) (p :: ps) = passAll (pass (top ++ σ) p) ps := rfl
    rw [hpass, pass]
    cases hb : p.token.brace? with
    | none =>
      rw [hb] at h
      exact ih h top htop
    | some brace =>
      rw [hb] at h
      cases brace with
      | opening => exact ih h (p.role.slot? :: top) (by simp [htop])
      | closing =>
        cases top with
        | nil =>
          subst htop
          cases h
        | cons slot? top =>
          subst htop
          exact ih h top rfl

theorem passAll_of_nested {ps : List Place}
    (h : Brace.Nested (Token.braces (ps.map Place.token))) (σ : Nest) : σ.passAll ps = σ := by
  obtain ⟨top, htop, hpass⟩ := passAll_of_depthAfter h [] rfl σ
  rw [List.length_eq_zero_iff.1 htop] at hpass
  exact hpass

/-- A closing brace ends a container if and only if it closes the brace of its body. -/
theorem Shows.close (h : σ.Shows s) :
    Shows σ.tail { s.closeScope with depth := s.closeScope.depth - 1 } := by
  refine ⟨by simp [Scopes.depth_closeScope, h.depth], ?_⟩
  cases σ with
  | nil =>
    have hnil : s.frames = [] := h.frames
    simp only [Scopes.closeScope, hnil, Scopes.frames_closeNamespace]
    rfl
  | cons slot? σ =>
    have hdepth : s.depth = σ.length + 1 := h.depth
    cases slot? with
    | some slot =>
      have hframes : s.frames = (slot, σ.length + 1) :: Nest.frames σ := h.frames
      simp [Scopes.closeScope, hframes, hdepth]
    | none =>
      have hframes : s.frames = Nest.frames σ := h.frames
      unfold Scopes.closeScope
      cases hs : s.frames with
      | nil => exact (s.frames_closeNamespace.trans hs).trans (hs.symm.trans hframes)
      | cons f outer =>
        -- The container that is innermost has its brace further out.
        have hle := frames_le σ f (by rw [← hframes, hs]; exact List.mem_cons_self)
        dsimp only
        rw [if_neg (by omega), Scopes.frames_closeNamespace, hframes]
        rfl

end Nest

/-! ## What a look leaves open -/

section Looks

variable {s : Scopes} {l : Look}

theorem look_of_no_brace (hl : l.brace? = none) (s : Scopes) :
    (s.look l).depth = s.depth ∧ (s.look l).frames = s.frames := by
  unfold Look.brace? at hl
  unfold Scopes.look
  split at hl
  · rename_i e he
    cases e with
    | container position attributes declaration body =>
      simp only [Event.brace?] at hl
      split at hl
      · rename_i henum
        simp [Scopes.after, henum]
      · cases hl
    | openNamespace position name => cases hl
    | openBrace position => cases hl
    | closeBrace position => cases hl
    | _ => exact ⟨rfl, rfl⟩
  · exact ⟨rfl, rfl⟩

/-- The slot of the container that a look reads. -/
def Scopes.opened? (s : Scopes) (l : Look) : Option Nat :=
  if l.containers = 1 then some s.slots else none

theorem look_of_opening (hl : l.brace? = some .opening) (s : Scopes) :
    (s.look l).depth = s.depth + 1 ∧
      (s.look l).frames = (s.opened? l).toList.map (·, s.depth + 1) ++ s.frames := by
  unfold Look.brace? at hl
  unfold Scopes.look Scopes.opened? Look.containers
  split at hl
  · rename_i e he
    simp only [he]
    cases e with
    | container position attributes declaration body =>
      simp only [Event.brace?] at hl
      split at hl
      · cases hl
      · rename_i hclass
        simp [Scopes.after, hclass]
    | openNamespace position name => exact ⟨rfl, rfl⟩
    | openBrace position => exact ⟨rfl, rfl⟩
    | _ => cases hl
  · cases hl

theorem slots_closeScope (s : Scopes) : s.closeScope.slots = s.slots := by
  have hnamespace : s.closeNamespace.slots = s.slots := by
    unfold Scopes.closeNamespace
    split
    · split <;> rfl
    · rfl
  unfold Scopes.closeScope
  split
  · split
    · rfl
    · exact hnamespace
  · exact hnamespace

theorem slots_look (s : Scopes) (l : Look) : (s.look l).slots = s.slots + l.containers := by
  unfold Scopes.look Look.containers
  rcases l.event with _ | _ | e
  · rfl
  · rfl
  · cases e with
    | container position attributes declaration body =>
      simp only [Scopes.after]
      split <;> rfl
    | closeBrace position => exact slots_closeScope s
    | _ => rfl

/-- A container is more than one token. -/
theorem length_read_of_container {read : List Token} {position : Text.Position}
    {attributes declaration : Excerpt} {body : Option String}
    (hr : Reports read (some (.ok (.container position attributes declaration body)))) :
    1 < read.length := by
  cases hr with
  | member _ h => cases h
  | _ =>
    simp only [List.length_append, List.length_cons]
    omega

/-- The brace that a look ends with opens the body of the container that the look reads, if it reads
one. -/
theorem slot?_role_opening (v : Vocabulary) {header : List Token} {brace : Token}
    (hread : l.read = header ++ [brace]) (hl : l.brace? = some .opening)
    (hr : Reports l.read l.event) :
    (l.role v s.slots header.length).slot? = s.opened? l := by
  have hafter : l.read.length - (header.length + 1) = 0 := by simp [hread]
  unfold Look.brace? at hl
  split at hl
  · rename_i e he
    cases e with
    | container position attributes declaration body =>
      simp only [Event.brace?] at hl
      split at hl
      · cases hl
      · rename_i hclass
        rw [he] at hr
        have hlen := length_read_of_container hr
        have hpos : header.length ≠ 0 := by
          rw [hread, List.length_append, List.length_singleton] at hlen
          omega
        simp [Scopes.opened?, Look.role, Look.containers, Look.body, he, hclass, hpos, hafter,
          Role.slot?]
    | openNamespace position name =>
      simp only [Scopes.opened?, Look.role, Look.containers, he]
      split <;> rfl
    | openBrace position =>
      simp only [Scopes.opened?, Look.role, Look.containers, he]
      split <;> rfl
    | _ => cases hl
  · cases hl

end Looks

namespace Nest

variable {σ : Nest} {s : Scopes} {l : Look}

theorem Shows.open (h : σ.Shows s) (hl : l.brace? = some .opening) :
    Shows (s.opened? l :: σ) (s.look l) := by
  obtain ⟨hdepth, hframes⟩ := look_of_opening hl s
  refine ⟨by rw [hdepth, h.depth, List.length_cons], ?_⟩
  rw [hframes, h.frames, h.depth]
  cases s.opened? l <;> rfl

/-- Behind the places of a look that ends with an opening brace that brace is open. -/
theorem passAll_places_opening (v : Vocabulary) {header : List Token} {brace : Token}
    (hread : l.read = header ++ [brace]) (hbrace : brace.brace? = some .opening)
    (hnested : Brace.Nested (Token.braces header)) (hl : l.brace? = some .opening)
    (hr : Reports l.read l.event) :
    σ.passAll (l.places v s.slots) = s.opened? l :: σ := by
  let ps : List Place := header.mapIdx fun index t => ⟨t, l.role v s.slots index⟩
  have hplaces : l.places v s.slots = ps ++ [⟨brace, l.role v s.slots header.length⟩] := by
    rw [Look.places, hread, List.mapIdx_concat]
  have htokens : ps.map Place.token = header :=
    List.ext_getElem (by simp [ps]) fun k hk hk' => by simp [ps]
  have hheader : σ.passAll ps = σ := passAll_of_nested (by rwa [htokens]) σ
  rw [hplaces, passAll_append, hheader, ← slot?_role_opening v hread hl hr]
  simp [passAll, pass, hbrace]

/-- The open braces behind a faithful look show what the look leaves open. -/
theorem Shows.look (h : σ.Shows s) (v : Vocabulary) (hl : l.Faithful)
    (hr : Reports l.read l.event) :
    Shows (σ.passAll (l.places v s.slots)) (s.look l) := by
  rcases hb : l.brace? with _ | _ | _
  · have hnested := hl.1 hb
    rw [← token_places v s.slots l] at hnested
    obtain ⟨hdepth, hframes⟩ := look_of_no_brace hb s
    rw [passAll_of_nested hnested]
    exact ⟨hdepth.trans h.depth, hframes.trans h.frames⟩
  · obtain ⟨header, brace, hread, hbrace, hnested⟩ := hl.opening hb
    rw [passAll_places_opening v hread hbrace hnested hb hr]
    exact h.open hb
  · obtain ⟨position, hevent⟩ := look_brace?_eq_closing_iff.1 hb
    rw [hevent] at hr
    obtain ⟨t, hread, ht⟩ := read_closeBrace hr
    have hpass : σ.passAll (l.places v s.slots) = σ.tail := by
      simp [Look.places, hread, passAll, pass, ht]
    have hlook : s.look l = { s.closeScope with depth := s.closeScope.depth - 1 } := by
      unfold Scopes.look
      rw [hevent]
      rfl
    rw [hpass, hlook]
    exact h.close

/-! ## Marks that are heeded -/

/-- The marks at places that looks heed. -/
def heeded (v : Vocabulary) (σ : Nest) (ps : List Place) : List Mark :=
  ((σ.marks v ps).filter Prod.snd).map Prod.fst

/-- No look heeds a mark that it does not start with. -/
theorem heeded_append_of_inner (v : Vocabulary) {ps : List Place}
    (h : ∀ p ∈ ps, p.role ≠ .head) (σ : Nest) (more : List Place) :
    σ.heeded v (ps ++ more) = (σ.passAll ps).heeded v more := by
  induction ps generalizing σ with
  | nil => rfl
  | cons p ps ih =>
    have hp : p.role ≠ .head := h p List.mem_cons_self
    have hrest := ih (fun q hq => h q (List.mem_cons_of_mem _ hq)) (σ.pass p)
    unfold heeded at hrest ⊢
    rw [List.cons_append, marks, List.filter_append, List.map_append, hrest]
    cases σ.mark? v p (ps ++ more).head? <;> simp [hp, passAll]

/-- A look heeds the mark of a member that its first token announces. -/
theorem heeded_head (v : Vocabulary) (σ : Nest) (t : Token) (ps : List Place) :
    σ.heeded v (⟨t, .head⟩ :: ps) =
      (t.announced? v (ps.map Place.token)).toList.map (fun m => ⟨m, σ.innermost?⟩) ++
        (σ.pass ⟨t, .head⟩).heeded v ps := by
  have hmark : σ.mark? v ⟨t, .head⟩ ps.head? =
      (t.member? v (ps.map Place.token).head?).map fun m => ⟨m, σ.innermost?⟩ := by
    rw [mark?, if_neg (by simp), List.head?_map]
  unfold heeded Token.announced?
  rw [marks, List.filter_append, List.map_append, hmark]
  by_cases hname : t.text = "namespace"
  · cases t.member? v (ps.map Place.token).head? <;> simp [hname]
  · cases t.member? v (ps.map Place.token).head? <;> simp [hname]

/-- If no look reads a brace without its partner in silence, the marks that looks heed are enclosed
by the containers that are open for the builder. -/
theorem heeded_placesOf {v : Vocabulary} {ts : List Token}
    (hls : ∀ l ∈ looks v ts, l.Faithful) (h : σ.Shows s) :
    σ.heeded v (placesOf v s.slots (looks v ts)) = s.heeded v (looks v ts) := by
  induction hn : ts.length using Nat.strong_induction_on generalizing ts σ s with
  | _ n ih =>
    cases ts with
    | nil => rw [looks]; rfl
    | cons t rest =>
      obtain ⟨read, hread, hr, hlooks⟩ := Markup.looks_cons v t rest
      let l : Look := ⟨t :: read, (Markup.step v t rest).event⟩
      let behind := (Markup.step v t rest).rest
      have hrest : rest = read ++ behind := (List.cons.inj hread).2
      have hl : l.Faithful := hls l (by rw [hlooks]; exact List.mem_cons_self)
      have hshows := h.look v hl hr
      have hnext := ih behind.length (hn ▸ Markup.length_step_lt v t rest)
        (fun m hm => hls m (by rw [hlooks]; exact List.mem_cons_of_mem _ hm)) hshows rfl
      obtain ⟨ps, hps, hinner⟩ := places_cons v s.slots (l := l) rfl
      have hpass : (σ.pass ⟨t, .head⟩).passAll ps = σ.passAll (l.places v s.slots) := by
        rw [hps]
        rfl
      have htokens :
          (ps ++ placesOf v (s.look l).slots (looks v behind)).map Place.token = rest := by
        have hread := token_places v s.slots l
        rw [hps] at hread
        rw [List.map_append, token_placesOf, Markup.flatMap_read_looks, hrest]
        exact congrArg (· ++ behind) (List.cons.inj hread).2
      have hannounced : t.announced? v rest = l.announced? v :=
        (Markup.announced?_read v hrest).symm
      rw [hlooks, placesOf, Scopes.heeded, ← slots_look, hps, List.cons_append, heeded_head,
        heeded_append_of_inner v hinner, htokens, hannounced, hpass, hnext, Scopes.marks,
        h.innermost?_eq]

end Nest

/-! ## Members of a file -/

/-- What is recorded of the containers of a file, each in the slot that it has by its place among
them. -/
def recorded (v : Vocabulary) (path fileId source : String) : List (Option Container) :=
  ((Builder.start path fileId).afterLooks (looks v (Token.lex source))).slots

/-- The marks of a file are those that are heeded and those that are swallowed. -/
theorem count_fileMarks (v : Vocabulary) (source : String) (k : Mark) :
    ((fileMarks v source).map Prod.fst).count k =
      (Nest.heeded v [] (placesOf v 0 (looks v (Token.lex source)))).count k +
        (swallowed v source).count k := by
  have hperm := (List.filter_append_perm Prod.snd (fileMarks v source)).map Prod.fst
  rw [← hperm.count_eq k, List.map_append, List.count_append]
  rfl

/-- **A container that is recorded has a property for each look that announces a property while the
container is the innermost one open, and so for its functions.** If no look reads a brace without
its partner in silence, the members of a container and the swallowed markers that it encloses are
together as many as the markers that it encloses in the file. -/
theorem members_counted (v : Vocabulary) (path fileId source : String) :
    (FileModel.ofSource v path fileId source).containers =
      (recorded v path fileId source).filterMap id ∧
    ∀ i c, (recorded v path fileId source)[i]? = some (some c) → ∀ m : Member,
      m.count c =
        (Scopes.heeded v ⟨0, [], [], 0⟩ (looks v (Token.lex source))).count ⟨m, some i⟩ ∧
      ((∀ l ∈ looks v (Token.lex source), l.Faithful) →
        m.count c + (swallowed v source).count ⟨m, some i⟩ =
          ((fileMarks v source).map Prod.fst).count ⟨m, some i⟩) := by
  refine ⟨by rw [ofSource_eq]; rfl, fun i c hc m => ?_⟩
  have hannounces : ∀ l ∈ looks v (Token.lex source), Announces (l.announced? v) l.event :=
    fun _ => Markup.announces_of_mem_looks v
  have hcounted := (Builder.Counted.start path fileId).afterLooks hannounces
  have hcount := hcounted.complete i c hc m
  rw [List.nil_append] at hcount
  refine ⟨hcount, fun hfaithful => ?_⟩
  have hshows : Nest.Shows [] ⟨0, [], [], 0⟩ := ⟨rfl, rfl⟩
  have hheeded := Nest.heeded_placesOf hfaithful hshows
  have hstart : (Builder.start path fileId).scopes = ⟨0, [], [], 0⟩ := rfl
  rw [hcount, hstart, ← hheeded, count_fileMarks]

theorem members_counted_skipped :
    ∃ c, (recorded {} "a.h" "a.h"
        "STRUCT() struct S { FUNCTION() void f() { PROPERTY(); } PROPERTY() int a; };")[0]? =
          some (some c) ∧
      (∀ l ∈ looks {} (Token.lex
        "STRUCT() struct S { FUNCTION() void f() { PROPERTY(); } PROPERTY() int a; };"),
        l.Faithful) ∧
      Member.property.count c + (swallowed {}
        "STRUCT() struct S { FUNCTION() void f() { PROPERTY(); } PROPERTY() int a; };").count
          ⟨.property, some 0⟩ =
        ((fileMarks {}
          "STRUCT() struct S { FUNCTION() void f() { PROPERTY(); } PROPERTY() int a; };").map
            Prod.fst).count ⟨.property, some 0⟩ := by
  have hsome : (recorded {} "a.h" "a.h"
      "STRUCT() struct S { FUNCTION() void f() { PROPERTY(); } PROPERTY() int a; };"
        )[0]?.join.isSome = true := by
    decide +kernel
  obtain ⟨c, hc⟩ := Option.isSome_iff_exists.1 hsome
  have hslot := Option.join_eq_some_iff.1 hc
  have hfaithful : ∀ l ∈ looks {} (Token.lex
      "STRUCT() struct S { FUNCTION() void f() { PROPERTY(); } PROPERTY() int a; };"),
        l.Faithful := by
    decide +kernel
  exact ⟨c, hslot, hfaithful,
    ((members_counted {} "a.h" "a.h" _).2 0 c hslot .property).2 hfaithful⟩

/-- A container can have fewer properties than markers: a data member without a semicolon takes the
marker behind it, and no fault is reported. -/
theorem members_swallowed :
    ¬∀ v path fileId source i c, (recorded v path fileId source)[i]? = some (some c) →
      ∀ m : Member,
        m.count c = ((fileMarks v source).map Prod.fst).count ⟨m, some i⟩ := by
  intro h
  have hone : (recorded {} "a.h" "a.h"
      "STRUCT() struct S { GENERATED_BODY() PROPERTY() int a PROPERTY() int b; };"
        )[0]?.join.map (Member.count · .property) = some 1 := by
    decide +kernel
  obtain ⟨c, hc, hcount⟩ := Option.map_eq_some_iff.1 hone
  have htwo := h _ _ _ _ 0 c (Option.join_eq_some_iff.1 hc) .property
  rw [hcount] at htwo
  revert htwo
  decide +kernel

end HeaderReflection
