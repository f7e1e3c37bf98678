import HeaderReflection.Proofs.Scope.Bodies

/-!
# The stacks of open scopes

Containers and namespaces are kept on two stacks, and nothing but the depths in them says how the
two interleave. Whatever the events are, nested or not, the depths tell the order in which the open
scopes were opened, so that a closing brace ends the scope opened last.

* `Opening`: the event that opened a scope, with no brace opened at its depth since.
* `exists_opening`: every open scope has its opening.
* `Opening.closeBrace`: a closing brace as deep as a scope takes back the scope's opening.
* `Builder.endsOne_iff`: a closing brace ends a scope exactly if one is as deep as the place.
* `stacks_takeAll`: what holds of the stacks after any events, and of a closing brace behind them.
-/

namespace HeaderReflection

namespace Scopes

/-! ## Slots -/

/-- The slots of open containers are taken, and are the later the further inside the containers. -/
structure Slotted (s : Scopes) : Prop where
  frames : s.frames.Pairwise fun inner outer => outer.1 < inner.1
  taken : ∀ f ∈ s.frames, f.1 < s.slots

theorem Slotted.start : Slotted ⟨0, [], [], 0⟩ :=
  ⟨.nil, by simp⟩

/-- Closing scopes and taking more slots keeps the slots in order. -/
theorem Slotted.shrink {s t : Scopes} (h : s.Slotted) (hf : t.frames <:+ s.frames)
    (hslots : s.slots ≤ t.slots) : t.Slotted where
  frames := h.frames.sublist hf.sublist
  taken := fun f hm => Nat.lt_of_lt_of_le (h.taken f (hf.subset hm)) hslots

theorem Slotted.openFrame {s : Scopes} (h : s.Slotted) (depth : Nat) :
    Slotted { s with
      depth := depth, frames := (s.slots, depth) :: s.frames, slots := s.slots + 1 } where
  frames := List.pairwise_cons.2 ⟨fun f hf => h.taken f hf, h.frames⟩
  taken := by
    simp only [List.mem_cons]
    rintro f (rfl | hf)
    · exact Nat.lt_succ_self _
    · exact Nat.lt_succ_of_lt (h.taken f hf)

/-- Every event keeps the slots in order. -/
theorem Slotted.after {s : Scopes} (h : s.Slotted) (e : Event) : (s.after e).Slotted := by
  cases e with
  | container position attributes declaration body =>
    simp only [Scopes.after]
    split
    · exact h.shrink List.suffix_rfl (Nat.le_succ _)
    · exact h.openFrame _
  | closeBrace position =>
    exact h.shrink s.suffix_closeScope.1 (Nat.le_of_eq (slots_closeScope s).symm)
  | property position attributes declaration => exact h
  | function position attributes declaration => exact h
  | generatedBody position attributes => exact h
  | label position visibility => exact h
  | openNamespace position name => exact h.shrink List.suffix_rfl (Nat.le_refl _)
  | openBrace position => exact h.shrink List.suffix_rfl (Nat.le_refl _)

/-! ## Depths -/

/-- The depths of all open scopes. -/
def depths (s : Scopes) : List Nat :=
  s.frames.map (·.2) ++ s.namespaces.map (·.depth)

theorem mem_depths {s : Scopes} {d : Nat} :
    d ∈ s.depths ↔ (∃ f ∈ s.frames, f.2 = d) ∨ ∃ n ∈ s.namespaces, n.depth = d := by
  simp only [depths, List.mem_append, List.mem_map]

theorem Sound.nodup_depths {s : Scopes} (h : s.Sound) : s.depths.Nodup := by
  refine List.nodup_append.2 ⟨?_, ?_, ?_⟩
  · exact List.pairwise_map.2 (h.frames.imp fun hlt => Nat.ne_of_gt hlt)
  · exact List.pairwise_map.2 (h.namespaces.imp fun hlt => Nat.ne_of_gt hlt)
  · simp only [List.mem_map]
    rintro _ ⟨f, hf, rfl⟩ _ ⟨n, hn, rfl⟩
    exact h.apart f hf n hn

theorem Sound.depths_within {s : Scopes} (h : s.Sound) {d : Nat} (hd : d ∈ s.depths) :
    1 ≤ d ∧ d ≤ s.depth := by
  obtain ⟨f, hf, rfl⟩ | ⟨n, hn, rfl⟩ := mem_depths.1 hd
  · exact ⟨h.positive.1 f hf, h.bounded.frames f hf⟩
  · exact ⟨h.positive.2 n hn, h.bounded.namespaces n hn⟩

/-- A closing brace leaves open just the scopes that are not as deep as it is. -/
theorem Sound.depths_closeScope_lt {s : Scopes} (h : s.Sound) {d : Nat}
    (hd : d ∈ s.closeScope.depths) : d < s.depth := by
  obtain ⟨hf, hn⟩ := h.closeScope_lt
  obtain ⟨f, hm, rfl⟩ | ⟨n, hm, rfl⟩ := mem_depths.1 hd
  · exact hf f hm
  · exact hn n hm

/-- An event leaves no scope open that was not open before, unless it opens it at the next depth. -/
theorem mem_depths_after {s : Scopes} {e : Event} {d : Nat} (hd : d ∈ (s.after e).depths) :
    d ∈ s.depths ∨ e.opensScope = true ∧ d = (s.after e).depth := by
  cases e with
  | container position attributes declaration body =>
    by_cases he : isEnumDeclaration declaration.text = true
    · simp only [after, he, if_true] at hd
      exact .inl hd
    · simp only [after, he, Bool.false_eq_true, if_false] at hd ⊢
      rcases mem_depths.1 hd with ⟨f, hf, hfd⟩ | hn
      · rcases List.mem_cons.1 hf with rfl | hf
        · exact .inr ⟨by simp [Event.opensScope, he], hfd.symm⟩
        · exact .inl (mem_depths.2 (.inl ⟨f, hf, hfd⟩))
      · exact .inl (mem_depths.2 (.inr hn))
  | openNamespace position name =>
    rcases mem_depths.1 hd with hf | ⟨n, hn, hnd⟩
    · exact .inl (mem_depths.2 (.inl hf))
    · rcases List.mem_cons.1 hn with rfl | hn
      · exact .inr ⟨rfl, hnd.symm⟩
      · exact .inl (mem_depths.2 (.inr ⟨n, hn, hnd⟩))
  | closeBrace position =>
    obtain ⟨hfs, hns⟩ := s.suffix_closeScope
    rcases mem_depths.1 hd with ⟨f, hf, hfd⟩ | ⟨n, hn, hnd⟩
    · exact .inl (mem_depths.2 (.inl ⟨f, hfs.subset hf, hfd⟩))
    · exact .inl (mem_depths.2 (.inr ⟨n, hns.subset hn, hnd⟩))
  | openBrace position => exact .inl hd
  | property position attributes declaration => exact .inl hd
  | function position attributes declaration => exact .inl hd
  | generatedBody position attributes => exact .inl hd
  | label position visibility => exact .inl hd

end Scopes

/-! ## Openings -/

section Opening

variable {b : Builder} {e : Event} {es between : List (Except ScanFault Event)}

theorem Builder.takeAll_snoc (b : Builder) (es : List (Except ScanFault Event))
    (e : Except ScanFault Event) : b.takeAll (es ++ [e]) = (b.takeAll es).take e :=
  b.takeAll_append es [e]

/-- Open scopes stay sound, and their slots in order, whatever the events are. -/
theorem Builder.sound_takeAll (hs : b.scopes.Sound) (hslots : b.scopes.Slotted)
    (es : List (Except ScanFault Event)) :
    (b.takeAll es).scopes.Sound ∧ (b.takeAll es).scopes.Slotted := by
  induction es using List.reverseRecOn with
  | nil => exact ⟨hs, hslots⟩
  | append_singleton es e ih =>
    rw [takeAll_snoc, scopes_take]
    cases e with
    | ok e => exact ⟨ih.1.after e, ih.2.after e⟩
    | error f => exact ih

/-- An event opened a scope for a builder, which has been open during the events since then. -/
structure Opening (b : Builder) (e : Event) (between : List (Except ScanFault Event)) : Prop where
  opens : e.opensScope = true
  above : ∀ first, first <+: between →
    (b.process e).scopes.Above ((b.process e).takeAll first).scopes

theorem Opening.start (b : Builder) (he : e.opensScope = true) : Opening b e [] := by
  refine ⟨he, fun first hfirst => ?_⟩
  obtain rfl := List.prefix_nil.1 hfirst
  exact .refl _

theorem Opening.above_last (h : Opening b e between) :
    (b.process e).scopes.Above ((b.process e).takeAll between).scopes :=
  h.above between List.prefix_rfl

/-- One more event keeps a scope open, unless it is a closing brace no deeper than the scope. -/
theorem Opening.snoc (h : Opening b e between) (hb : (b.process e).scopes.Bounded)
    (next : Except ScanFault Event) (hnext : ∀ position, next = .ok (.closeBrace position) →
      (b.process e).depth < ((b.process e).takeAll between).depth) :
    Opening b e (between ++ [next]) := by
  refine ⟨h.opens, fun first hfirst => ?_⟩
  rcases List.prefix_concat_iff.1 hfirst with rfl | hfirst
  · rw [Builder.takeAll_snoc, Builder.scopes_take]
    cases next with
    | error f => exact h.above_last
    | ok f =>
      refine h.above_last.after hb fun hclose => ?_
      obtain ⟨position, rfl⟩ := brace?_eq_closing_iff.1 hclose
      exact hnext position rfl
  · exact h.above first hfirst

/-- Every open scope has its opening. -/
theorem exists_opening {b : Builder} (hs : b.scopes.Sound) (hslots : b.scopes.Slotted)
    (hnone : b.scopes.depths = []) {d : Nat} (hd : d ∈ (b.takeAll es).scopes.depths) :
    ∃ before e between, es = before ++ .ok e :: between ∧
      Opening (b.takeAll before) e between ∧ ((b.takeAll before).process e).depth = d := by
  induction es using List.reverseRecOn with
  | nil =>
    rw [Builder.takeAll, List.foldl_nil, hnone] at hd
    cases hd
  | append_singleton es next ih =>
    -- A scope that was open before has its opening there, and is open still.
    have hold : d ∈ (b.takeAll es).scopes.depths →
        (∀ position, next = .ok (.closeBrace position) → d < (b.takeAll es).depth) →
        ∃ before e between, es ++ [next] = before ++ .ok e :: between ∧
          Opening (b.takeAll before) e between ∧ ((b.takeAll before).process e).depth = d := by
      intro hmem hnext
      obtain ⟨before, e, between, rfl, hopening, rfl⟩ := ih hmem
      rw [Builder.takeAll_append] at hnext
      have hbounded := ((Builder.sound_takeAll hs hslots before).1.after e).bounded
      rw [← Builder.scopes_process] at hbounded
      exact ⟨before, e, between ++ [next], by simp, hopening.snoc hbounded next hnext, rfl⟩
    rw [Builder.takeAll_snoc, Builder.scopes_take] at hd
    cases next with
    | error f => exact hold hd fun _ h => by cases h
    | ok f =>
      rcases Scopes.mem_depths_after hd with hmem | ⟨hf, hdepth⟩
      · refine hold hmem fun position h => ?_
        cases h
        exact (Builder.sound_takeAll hs hslots es).1.depths_closeScope_lt hd
      · refine ⟨es, f, [], rfl, .start _ hf, ?_⟩
        rw [hdepth, ← Builder.scopes_process]
        rfl

/-- Since a scope's opening every brace has been opened at a greater depth. -/
theorem Opening.deeper (h : Opening b e between) {first later : List (Except ScanFault Event)}
    {f : Event} (hbetween : between = first ++ .ok f :: later) (hf : f.brace? = some .opening) :
    (b.process e).depth < (((b.process e).takeAll first).process f).depth := by
  have hle := (h.above first ⟨_, hbetween.symm⟩).depth
  have hdepth := Scopes.depth_after ((b.process e).takeAll first).scopes f
  rw [hf, ← Builder.scopes_process] at hdepth
  exact Nat.lt_of_le_of_lt hle (Nat.lt_of_lt_of_eq (Nat.lt_succ_self _) hdepth.symm)

/-- A closing brace as deep as a scope that is open takes back the opening of the scope. -/
theorem Opening.closeBrace (h : Opening b e between) (hb : b.scopes.Sound) {c : Builder}
    (hc : c = (b.process e).takeAll between) (hsound : c.scopes.Sound)
    (hd : (b.process e).depth = c.depth) (position : Text.Position) :
    (b.process e).OpenAlike c ∧ b.OpenAlike (c.process (.closeBrace position)) := by
  subst hc
  have habove := h.above_last
  have hsame := habove.eq_of_depth hsound.bounded hd.symm
  rw [Builder.scopes_process] at habove
  have hdepth : ((b.process e).takeAll between).scopes.depth = (b.scopes.after e).depth := by
    rw [← Builder.scopes_process]
    exact hd.symm
  have hclose := Scopes.closeScope_opened hb.bounded h.opens hsound.bounded habove hdepth
  refine ⟨⟨hsame.1.symm, hsame.2.symm⟩, ?_⟩
  unfold Builder.OpenAlike
  rw [Builder.scopes_process]
  exact ⟨hclose.1.symm, hclose.2.symm⟩

end Opening

/-! ## Closing braces -/

namespace Builder

variable {b : Builder}

theorem stacks_complete (b : Builder) (frame : Frame) :
    (b.complete frame).frames = b.frames ∧ (b.complete frame).namespaces = b.namespaces := by
  unfold complete
  split
  · exact ⟨rfl, rfl⟩
  · dsimp only
    split <;> exact ⟨rfl, rfl⟩

/-- One scope has ended: the innermost container or the innermost namespace, whichever is as deep as
the place. -/
def EndsOne (b c : Builder) : Prop :=
  (∃ f, b.frames = f :: c.frames ∧ f.depth = b.depth ∧ c.namespaces = b.namespaces) ∨
    ∃ n, b.namespaces = n :: c.namespaces ∧ n.depth = b.depth ∧ c.frames = b.frames

/-- A closing brace ends no scope, or one. -/
theorem closeScope_ends (b : Builder) :
    (b.closeScope.frames = b.frames ∧ b.closeScope.namespaces = b.namespaces) ∨
      b.EndsOne b.closeScope := by
  have hns : b.closeNamespace = b ∨ b.EndsOne b.closeNamespace := by
    unfold closeNamespace
    split
    · rename_i n outer hn
      split
      · rename_i hd
        exact .inr (.inr ⟨n, hn, hd, rfl⟩)
      · exact .inl rfl
    · exact .inl rfl
  have hcases : b.closeNamespace = b ∨ b.EndsOne b.closeNamespace →
      (b.closeNamespace.frames = b.frames ∧ b.closeNamespace.namespaces = b.namespaces) ∨
        b.EndsOne b.closeNamespace :=
    Or.imp_left fun h => by rw [h]; exact ⟨rfl, rfl⟩
  unfold closeScope
  split
  · rename_i f outer hf
    split
    · rename_i hd
      obtain ⟨hfs, hns⟩ := stacks_complete { b with frames := outer } f
      exact .inr (.inl ⟨f, by rw [hfs, hf], hd, hns⟩)
    · exact hcases hns
  · exact hcases hns

theorem EndsOne.mem_depths {c : Builder} (h : b.EndsOne c) : b.depth ∈ b.scopes.depths := by
  obtain ⟨f, hf, hd, -⟩ | ⟨n, hn, hd, -⟩ := h
  · refine Scopes.mem_depths.2 (.inl ⟨(f.slot, f.depth), List.mem_map_of_mem ?_, hd⟩)
    rw [hf]
    exact List.mem_cons_self
  · refine Scopes.mem_depths.2 (.inr ⟨n, ?_, hd⟩)
    change n ∈ b.namespaces
    rw [hn]
    exact List.mem_cons_self

/-- A closing brace ends a scope if one is as deep as the place, and else none. -/
theorem endsOne_iff (hs : b.scopes.Sound) :
    b.EndsOne b.closeScope ↔ b.depth ∈ b.scopes.depths := by
  refine ⟨EndsOne.mem_depths, fun hd => ?_⟩
  rcases b.closeScope_ends with ⟨hf, hn⟩ | hone
  · have hsame : b.closeScope.scopes.depths = b.scopes.depths := by
      simp only [Scopes.depths, scopes, hf, hn]
    rw [scopes_closeScope] at hsame
    exact absurd (hs.depths_closeScope_lt (hsame ▸ hd)) (Nat.lt_irrefl _)
  · exact hone

/-- The depths in the stacks of a builder, and the slots of its containers. -/
structure Stacked (b : Builder) : Prop where
  apart : b.scopes.depths.Nodup
  within : ∀ d ∈ b.scopes.depths, 1 ≤ d ∧ d ≤ b.depth
  frames : b.frames.Pairwise fun inner outer => outer.depth < inner.depth
  namespaces : b.namespaces.Pairwise fun inner outer => outer.depth < inner.depth
  slots : b.frames.Pairwise fun inner outer => outer.slot < inner.slot
  taken : ∀ f ∈ b.frames, f.slot < b.slots.length

theorem stacked_of_sound (hs : b.scopes.Sound) (hslots : b.scopes.Slotted) : b.Stacked where
  apart := hs.nodup_depths
  within := fun _ hd => hs.depths_within hd
  frames := List.pairwise_map.1 hs.frames
  namespaces := hs.namespaces
  slots := List.pairwise_map.1 hslots.frames
  taken := fun _ hf => hslots.taken _ (List.mem_map_of_mem hf)

/-- The scope that ends with a closing brace behind events is the one that was opened last at its
depth: since then every brace was opened at a greater depth, what was open right behind its opening
is open still, and what was open right before is open behind the closing brace. -/
def EndsLast (start : Builder) (es : List (Except ScanFault Event)) (b c : Builder) : Prop :=
  ∃ before e between, es = before ++ .ok e :: between ∧ e.opensScope = true ∧
    ((start.takeAll before).process e).depth = b.depth ∧
    (∀ first f later, between = first ++ .ok f :: later → f.brace? = some .opening →
      b.depth < ((start.takeAll (before ++ .ok e :: first)).process f).depth) ∧
    ((start.takeAll before).process e).OpenAlike b ∧ (start.takeAll before).OpenAlike c

/-- What a closing brace does behind events. -/
structure ClosesLast (start : Builder) (es : List (Except ScanFault Event)) (b c : Builder) :
    Prop where
  /-- A brace that is as deep as no scope ends none. -/
  none : b.depth ∉ b.scopes.depths → c.frames = b.frames ∧ c.namespaces = b.namespaces
  bottom : b.depth = 0 → c.depth = 0 ∧ b.depth ∉ b.scopes.depths
  one : b.depth ∈ b.scopes.depths → b.EndsOne c ∧ EndsLast start es b c
  /-- The scope that ends is the innermost. -/
  rest : ∀ d ∈ c.scopes.depths, d < b.depth

/-- A closing brace behind any events ends at most the scope opened last at its depth. -/
theorem closesLast {start : Builder} (hs : start.scopes.Sound) (hslots : start.scopes.Slotted)
    (hnone : start.scopes.depths = []) (es : List (Except ScanFault Event))
    (position : Text.Position) :
    ClosesLast start es (start.takeAll es)
      ((start.takeAll es).process (.closeBrace position)) := by
  have hsound := (sound_takeAll hs hslots es).1
  generalize hb : start.takeAll es = b at hsound ⊢
  have hiff := endsOne_iff hsound
  have hscopes := b.scopes_process (.closeBrace position)
  refine ⟨fun hd => ?_, fun hd => ⟨?_, fun hmem => ?_⟩, fun hd => ⟨?_, ?_⟩, fun d hd => ?_⟩
  · exact b.closeScope_ends.resolve_right fun hone => hd (hiff.1 hone)
  · have hdepth := b.scopes.depth_after (.closeBrace position)
    rw [← hscopes] at hdepth
    exact hdepth.trans (congrArg (· - 1) hd)
  · have := (hsound.depths_within hmem).1
    omega
  · exact hiff.2 hd
  · rw [← hb] at hd
    obtain ⟨before, e, between, hes, hopening, hdepth⟩ := exists_opening hs hslots hnone hd
    have hsplit : ∀ more, start.takeAll (before ++ .ok e :: more) =
        ((start.takeAll before).process e).takeAll more := fun more => start.takeAll_append ..
    rw [hes, hsplit] at hb
    rw [hes, hsplit, hb] at hdepth
    obtain ⟨hopen, hclose⟩ := hopening.closeBrace (sound_takeAll hs hslots before).1 hb.symm hsound
      hdepth position
    refine ⟨before, e, between, hes, hopening.opens, hdepth, fun first f later hbetween hf => ?_,
      hopen, hclose⟩
    rw [hsplit, ← hdepth]
    exact hopening.deeper hbetween hf
  · rw [hscopes] at hd
    exact hsound.depths_closeScope_lt hd

end Builder

/-- After any events the open scopes lie at different depths, from one to that of the place, and
deeper the further inside they are, with the slots of the containers in order. A closing brace ends
at most one scope, which is the innermost and the one opened last at its depth. -/
theorem stacks_takeAll (path fileId : String) (es : List (Except ScanFault Event)) :
    ((Builder.start path fileId).takeAll es).Stacked ∧
      ∀ position, Builder.ClosesLast (Builder.start path fileId) es
        ((Builder.start path fileId).takeAll es)
        (((Builder.start path fileId).takeAll es).process (.closeBrace position)) := by
  have hs : (Builder.start path fileId).scopes.Sound := .start
  have hslots : (Builder.start path fileId).scopes.Slotted := .start
  obtain ⟨hsound, hslotted⟩ := Builder.sound_takeAll hs hslots es
  exact ⟨Builder.stacked_of_sound hsound hslotted, Builder.closesLast hs hslots rfl es⟩

end HeaderReflection
