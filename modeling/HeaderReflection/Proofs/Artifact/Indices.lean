import HeaderReflection.Proofs.Artifact.BodyMacros
import HeaderReflection.Proofs.Artifact.Globals

/-!
# Places of properties

The table of properties, the two accessors and the registration block each count the properties of
a container on their own, and the accessors leave some out. A property has the same place in all of
them: the one that it has in the container.

* `below_append`: what is read below a heading.
* `Tables.isCase_case`: a case tells its place.
* `Tables.filter_isCase_getBody`, `Tables.filter_isCase_setBody`: the cases for a place.
* `Tables.getSwitch_eq`, `Tables.setSwitch_eq`: the accessors, read from the lines of a section.
* `Registration.filter_blockEntries`: the lines for one macro in a registration block.
* `indices_agree`: what is generated for the property at a place.
-/

namespace HeaderReflection

/-! ## Reading lines -/

/-- The line starts with the given text. -/
def startsWith (start line : String) : Bool :=
  start.toList.isPrefixOf line.toList

theorem startsWith_iff {start line : String} :
    startsWith start line = true ↔ start.toList <+: line.toList :=
  List.isPrefixOf_iff_prefix

theorem startsWith_append (front rest : String) : startsWith front (front ++ rest) = true := by
  rw [startsWith_iff, String.toList_append]
  exact List.prefix_append ..

theorem startsWith_append_left (front start rest : String) :
    startsWith (front ++ start) (front ++ rest) = startsWith start rest := by
  rw [Bool.eq_iff_iff, startsWith_iff, startsWith_iff, String.toList_append, String.toList_append,
    List.prefix_append_right_inj]

theorem startsWith_trans {start front line : String} (h : startsWith start front = true)
    (h' : startsWith front line = true) : startsWith start line = true :=
  startsWith_iff.2 ((startsWith_iff.1 h).trans (startsWith_iff.1 h'))

/-- A line cannot start in two ways neither of which goes on like the other. -/
theorem startsWith_eq_false {start front line : String} (h : startsWith front line = true)
    (hfront : startsWith start front = false) (hstart : startsWith front start = false) :
    startsWith start line = false := by
  rw [Bool.eq_false_iff] at *
  intro hline
  rcases List.prefix_or_prefix_of_prefix (startsWith_iff.1 h) (startsWith_iff.1 hline) with hp | hp
  · exact hstart (startsWith_iff.2 hp)
  · exact hfront (startsWith_iff.2 hp)

theorem ne_of_startsWith {start l m : String} (hl : startsWith start l = true)
    (hm : startsWith start m = false) : l ≠ m := by
  rintro rfl
  rw [hl] at hm
  cases hm

/-- The lines between the first line that is the heading and the next one that is the end. -/
def below (heading stop : String) (ls : List String) : List String :=
  ((ls.dropWhile (· ≠ heading)).drop 1).takeWhile (· ≠ stop)

theorem below_append {heading stop : String} {before body : List String}
    (hbefore : heading ∉ before) (hbody : stop ∉ body) (rest : List String) :
    below heading stop (before ++ heading :: (body ++ stop :: rest)) = body := by
  have hdrop : (before ++ heading :: (body ++ stop :: rest)).dropWhile (· ≠ heading) =
      heading :: (body ++ stop :: rest) := by
    rw [List.dropWhile_append_of_pos fun l hl => decide_eq_true (ne_of_mem_of_not_mem hl hbefore)]
    simp
  have htake : (body ++ stop :: rest).takeWhile (· ≠ stop) = body := by
    rw [List.takeWhile_append_of_pos fun l hl => decide_eq_true (ne_of_mem_of_not_mem hl hbody)]
    simp
  rw [below, hdrop, List.drop_succ_cons, List.drop_zero, htake]

/-- The item at a place, among all items with their places. -/
theorem filter_zipIdx {α : Type} (xs : List α) (i k : Nat) :
    (xs.zipIdx k).filter (fun x => x.2 = k + i) = (xs[i]?.map (·, k + i)).toList := by
  induction xs generalizing i k with
  | nil => rfl
  | cons x xs ih =>
    rw [List.zipIdx_cons]
    cases i with
    | zero =>
      have hnone : (xs.zipIdx (k + 1)).filter (fun y => y.2 = k) = [] := by
        refine List.filter_eq_nil_iff.2 fun y hy => ?_
        have := List.le_snd_of_mem_zipIdx hy
        simp only [decide_eq_true_eq]
        omega
      simp [hnone]
    | succ i =>
      have hrest := ih i (k + 1)
      rw [Nat.add_right_comm, Nat.add_assoc] at hrest
      simpa using hrest

namespace Tables

variable {runtime : String} {r : Resolved} {c : Container}

/-! ## Cases -/

/-- The line is the case for a place. -/
def isCase (place : Nat) (line : String) : Bool :=
  startsWith ("        case " ++ toString place ++ ":") line

theorem colon_notMem_toString (n : Nat) : ':' ∉ (toString n).toList := fun h =>
  absurd (isDigit_of_mem_toString h) (by decide)

/-- A case tells its place. -/
theorem isCase_case (i place : Nat) (rest : String) :
    isCase i ("        case " ++ (toString place ++ (":" ++ rest))) = decide (i = place) := by
  rw [isCase, String.append_assoc, startsWith_append_left, Bool.eq_iff_iff, startsWith_iff,
    decide_eq_true_eq]
  simp only [String.toList_append]
  constructor
  · rintro ⟨more, hmore⟩
    have hmore : (toString i).toList ++ ':' :: more =
        (toString place).toList ++ ':' :: rest.toList := by
      simpa using hmore
    -- the digits are what stands before the first colon
    have hcut : ∀ (n : Nat) (cs : List Char),
        ((toString n).toList ++ ':' :: cs).takeWhile (· ≠ ':') = (toString n).toList := by
      intro n cs
      rw [List.takeWhile_append_of_pos fun c hc =>
        decide_eq_true (ne_of_mem_of_not_mem hc (colon_notMem_toString n))]
      simp
    have hdigits := congrArg (List.takeWhile (· ≠ ':')) hmore
    rw [hcut, hcut] at hdigits
    exact eq_of_toString_eq (String.toList_inj.1 hdigits)
  · rintro rfl
    rw [List.prefix_append_right_inj]
    exact List.prefix_append ..

theorem isCase_getCase (i place : Nat) (name : String) :
    isCase i (getCase name place) = decide (i = place) := by
  have hcolon : ": return &self->" = ":" ++ " return &self->" := by simp
  unfold getCase
  simp only [String.append_assoc]
  rw [hcolon, String.append_assoc]
  exact isCase_case ..

theorem isCase_setCase (i place : Nat) (name : String) :
    isCase i (setCase name place) = decide (i = place) := by
  have hcolon : ": self->" = ":" ++ " self->" := by simp
  unfold setCase
  simp only [String.append_assoc]
  rw [hcolon, String.append_assoc]
  exact isCase_case ..

/-- A line that is not indented like a case is none. -/
theorem isCase_of_not_startsWith {line : String} (h : startsWith "        case " line = false)
    (i : Nat) : isCase i line = false := by
  rw [isCase, Bool.eq_false_iff, ne_eq, startsWith_iff, String.append_assoc, String.toList_append]
  intro hcase
  rw [Bool.eq_false_iff, ne_eq, startsWith_iff] at h
  exact h ((List.prefix_append ..).trans hcase)

/-- The accessors reach a property. -/
def isReachable (c : Container) (p : Property) : Bool :=
  c.generatedBodyLine.isSome || p.visibility = .public

/-- The cases for a place in a switch over properties. -/
theorem filter_isCase_cases (keep : Property → Bool) (line : String → Nat → String)
    (hline : ∀ i place name, isCase i (line name place) = decide (i = place)) (i : Nat)
    (ps : List Property) :
    ((ps.zipIdx.filter fun (p, _) => keep p).map fun (p, place) => line p.name place).filter
        (isCase i) =
      (ps[i]?.filter keep).toList.map fun p => line p.name i := by
  have hplace : ∀ x : Property × Nat, isCase i (line x.1.name x.2) = decide (x.2 = i) := by
    intro x
    rw [hline, Bool.eq_iff_iff, decide_eq_true_eq, decide_eq_true_eq, eq_comm]
  have hat := filter_zipIdx ps i 0
  rw [Nat.zero_add] at hat
  rw [List.filter_map, List.filter_filter]
  simp only [Function.comp_def, hplace, Bool.and_comm]
  rw [← List.filter_filter, hat]
  cases ps[i]? with
  | none => rfl
  | some p => cases hkeep : keep p <;> simp [Option.filter_some, hkeep]

/-- The get accessor has a case for a property that it reaches. -/
theorem filter_isCase_getBody (c : Container) (i : Nat) :
    (getBody c).filter (isCase i) =
      (c.properties[i]?.filter (isReachable c)).toList.map fun p => getCase p.name i := by
  have hframe : isCase i "    switch (index) \x7b" = false ∧
      isCase i "        default: (void)self; return nullptr;" = false ∧
      isCase i "    \x7d" = false := by
    refine ⟨?_, ?_, ?_⟩ <;> exact isCase_of_not_startsWith (by decide) i
  have hcases : (reachable c).map (fun (p, place) => getCase p.name place) =
      (c.properties.zipIdx.filter fun (p, _) => isReachable c p).map
        fun (p, place) => getCase p.name place := rfl
  rw [getBody, hcases]
  simp [List.filter_append, hframe, filter_isCase_cases (isReachable c) getCase isCase_getCase]

/-- The set accessor has a case for a property that it reaches and can assign to. -/
theorem filter_isCase_setBody (c : Container) (i : Nat) :
    (setBody c).filter (isCase i) =
      (c.properties[i]?.filter fun p => isReachable c p && isAssignable p).toList.map
        fun p => setCase p.name i := by
  have hframe : isCase i "    switch (index) \x7b" = false ∧
      isCase i "        default: (void)self; (void)value; return false;" = false ∧
      isCase i "    \x7d" = false := by
    refine ⟨?_, ?_, ?_⟩ <;> exact isCase_of_not_startsWith (by decide) i
  have hcases : (assignable c).map (fun (p, place) => setCase p.name place) =
      (c.properties.zipIdx.filter fun (p, _) => isReachable c p && isAssignable p).map
        fun (p, place) => setCase p.name place := by
    rw [assignable, reachable, List.filter_filter]
    simp only [isReachable, Bool.and_comm]
  rw [setBody, hcases]
  simp [List.filter_append, hframe,
    filter_isCase_cases (fun p => isReachable c p && isAssignable p) setCase isCase_setCase]

/-! ## The lines of the accessors -/

/-- The line above the switch of the get accessor that reaches the properties itself. -/
def getHeading (runtime : String) (r : Resolved) : String :=
  if r.container.generatedBodyLine.isSome then memberGetHeading r.container
  else heading runtime r .getProperty

/-- The line above the switch of the set accessor that reaches the properties itself. -/
def setHeading (runtime : String) (r : Resolved) : String :=
  if r.container.generatedBodyLine.isSome then memberSetHeading r.container
  else heading runtime r .setProperty

/-- The rows under the heading of the table of properties. -/
def propertyRows (runtime : String) (r : Resolved) : List String :=
  below (heading runtime r .properties) "\x7d;" (inlinedLines runtime r)

/-- The lines of the get accessor. -/
def getSwitch (runtime : String) (r : Resolved) : List String :=
  below (getHeading runtime r) "\x7d" (inlinedLines runtime r)

/-- The lines of the set accessor. -/
def setSwitch (runtime : String) (r : Resolved) : List String :=
  below (setHeading runtime r) "\x7d" (inlinedLines runtime r)

/-- A line that starts a definition stands only where the definition is. -/
theorem notMem_of_filter_isDefinition {ls hs : List String} {h : String}
    (hfilter : ls.filter isDefinition = hs) (hdef : isDefinition h = true) (hne : h ∉ hs) :
    h ∉ ls := fun hmem => hne (hfilter ▸ List.mem_filter.2 ⟨hmem, hdef⟩)

/-- The plain functions that call the accessors which the generated-body macro declares. -/
def forwardLines (runtime : String) (r : Resolved) : List String :=
  if r.container.generatedBodyLine.isSome then
    [heading runtime r .getProperty,
      "    return " ++ r.container.qualifiedName ++ "::ReflectGetProperty(self, index);", "\x7d",
      heading runtime r .setProperty,
      "    return " ++ r.container.qualifiedName ++ "::ReflectSetProperty(self, index, value);",
      "\x7d"]
  else []

/-- The accessors that reach the properties stand first, whoever declares them. -/
theorem accessorLines_eq (runtime : String) (r : Resolved) :
    accessorLines runtime r =
      ["", getHeading runtime r] ++ getBody r.container ++ ["\x7d", setHeading runtime r]
        ++ setBody r.container ++ "\x7d" :: forwardLines runtime r := by
  unfold accessorLines getHeading setHeading forwardLines
  dsimp only
  split <;> simp

/-- What the line that starts the definition of a global starts with. -/
def opening : Global → String
  | .properties | .functions | .enumerators => "inline const "
  | .propertyCount | .functionCount | .enumeratorCount => "inline constexpr std::size_t "
  | .getProperty => "inline void* "
  | .setProperty | .isA => "inline bool "
  | .ancestors => "inline const char* const "

theorem startsWith_heading (runtime : String) (r : Resolved) (g : Global) :
    startsWith (opening g) (heading runtime r g) = true := by
  cases g with
  | properties | functions | enumerators =>
    unfold heading tableHeading
    simp only [String.append_assoc]
    exact startsWith_append ..
  | propertyCount | functionCount | enumeratorCount =>
    unfold heading countHeading
    simp only [String.append_assoc]
    exact startsWith_append ..
  | getProperty | setProperty | ancestors | isA =>
    unfold heading
    simp only [String.append_assoc]
    exact startsWith_append ..

theorem startsWith_getHeading (runtime : String) (r : Resolved) :
    startsWith "inline void* " (getHeading runtime r) = true := by
  unfold getHeading memberGetHeading
  split
  · simp only [String.append_assoc]
    exact startsWith_append ..
  · exact startsWith_heading runtime r .getProperty

theorem startsWith_setHeading (runtime : String) (r : Resolved) :
    startsWith "inline bool " (setHeading runtime r) = true := by
  unfold setHeading memberSetHeading
  split
  · simp only [String.append_assoc]
    exact startsWith_append ..
  · exact startsWith_heading runtime r .setProperty

/-! ## The lines of a section -/

/-- The row behind those of the properties. -/
def lastPropertyRow (runtime : String) : String :=
  row ["nullptr", "nullptr", "nullptr", "nullptr", runtime ++ "::Visibility::Public"]

theorem propertyRow_eq (runtime : String) (p : Property) :
    propertyRow runtime p =
      "    \x7b \"" ++ p.name ++ "\", " ++ quote (displayName p.name p.type.name p.attributes)
        ++ ", " ++ quote p.type.render ++ ", " ++ quote p.attributes.render ++ ", " ++ runtime
        ++ "::Visibility::" ++ p.visibility.descriptor ++ " \x7d," := by
  rw [← String.toList_inj]
  simp [propertyRow, row]

theorem lastPropertyRow_eq (runtime : String) :
    lastPropertyRow runtime =
      "    \x7b nullptr, nullptr, nullptr, nullptr, " ++ runtime
        ++ "::Visibility::Public \x7d," := by
  rw [← String.toList_inj]
  simp [lastPropertyRow, row]

theorem countHeading_propertyCount (c : Container) (n : Nat) :
    countHeading (c.globalName .propertyCount) n =
      "inline constexpr std::size_t " ++ c.symbol ++ "_PropertyCount = " ++ toString n ++ ";" := by
  unfold countHeading Container.globalName Global.word
  generalize c.symbol = symbol
  rw [← String.toList_inj]
  simp

/-- The lines above the accessors: a comment and the tables of properties and functions. -/
def tablesLines (runtime : String) (r : Resolved) : List String :=
  bannerLines r
    ++ tableLines runtime r .properties .propertyCount
      (r.container.properties.map (propertyRow runtime)) (lastPropertyRow runtime)
    ++ tableLines runtime r .functions .functionCount (r.container.methods.map methodRow)
      (row ["nullptr", "nullptr", "nullptr", "nullptr", "false", "false"])

section Sections

variable (runtime : String)

theorem inlinedLines_of_ne_enum (hkind : r.container.kind ≠ .enum) :
    inlinedLines runtime r =
      tablesLines runtime r ++ accessorLines runtime r ++ ancestryLines runtime r := by
  unfold inlinedLines tablesLines lastPropertyRow
  dsimp only
  rw [if_neg hkind]
  simp only [List.append_assoc]

theorem filter_tablesLines (r : Resolved) : (tablesLines runtime r).filter isDefinition =
    [.properties, .propertyCount, .functions, .functionCount].map (heading runtime r) := by
  have hrow : ∀ fields, isDefinition (row fields) = false := isDefinition_row
  unfold tablesLines lastPropertyRow
  rw [List.filter_append, List.filter_append, filter_bannerLines,
    filter_tableLines runtime r _ _ ?_ (hrow _), filter_tableLines runtime r _ _ ?_ (hrow _)]
  · rfl
  · simp [methodRow, hrow]
  · simp [propertyRow, hrow]

/-- A line that starts in another way than the tables and their counts stands below them. -/
theorem notMem_tablesLines {h : String} (hdef : isDefinition h = true)
    (hother : startsWith "inline const" h = false) : h ∉ tablesLines runtime r := by
  refine notMem_of_filter_isDefinition (filter_tablesLines runtime r) hdef fun hmem => ?_
  obtain ⟨g, hg, rfl⟩ := List.mem_map.1 hmem
  have hstarts : startsWith "inline const" (opening g) = true := by
    simp only [List.mem_cons, List.not_mem_nil, or_false] at hg
    rcases hg with rfl | rfl | rfl | rfl <;> decide
  exact ne_of_startsWith (startsWith_trans hstarts (startsWith_heading runtime r g)) hother rfl

/-- No line that starts with a blank is the end of a table or of a function. -/
theorem notMem_of_startsWith_blank {stop : String} {ls : List String}
    (h : ∀ l ∈ ls, startsWith " " l = true) (hstop : startsWith " " stop = false) : stop ∉ ls :=
  fun hmem => ne_of_startsWith (h stop hmem) hstop rfl

theorem startsWith_row (fields : List String) : startsWith " " (row fields) = true := by
  unfold row
  rw [String.append_assoc]
  exact startsWith_trans (by decide) (startsWith_append ..)

theorem startsWith_of_mem_getBody {c : Container} {l : String} (h : l ∈ getBody c) :
    startsWith " " l = true := by
  have hcase : ∀ name place, startsWith " " (getCase name place) = true := by
    intro name place
    unfold getCase
    simp only [String.append_assoc]
    exact startsWith_trans (by decide) (startsWith_append "        case " _)
  simp only [getBody, List.mem_append, List.mem_cons, List.mem_map, List.not_mem_nil,
    or_false] at h
  obtain (rfl | ⟨x, -, rfl⟩) | rfl | rfl := h
  · decide
  · exact hcase ..
  · decide
  · decide

theorem startsWith_of_mem_setBody {c : Container} {l : String} (h : l ∈ setBody c) :
    startsWith " " l = true := by
  have hcase : ∀ name place, startsWith " " (setCase name place) = true := by
    intro name place
    unfold setCase
    simp only [String.append_assoc]
    exact startsWith_trans (by decide) (startsWith_append "        case " _)
  simp only [setBody, List.mem_append, List.mem_cons, List.mem_map, List.not_mem_nil,
    or_false] at h
  obtain (rfl | ⟨x, -, rfl⟩) | rfl | rfl := h
  · decide
  · exact hcase ..
  · decide
  · decide

theorem propertyRows_eq (hkind : r.container.kind ≠ .enum) :
    propertyRows runtime r =
      r.container.properties.map (propertyRow runtime) ++ [lastPropertyRow runtime] := by
  have hlines : inlinedLines runtime r = (bannerLines r ++ [""]) ++ heading runtime r .properties ::
      (r.container.properties.map (propertyRow runtime) ++ [lastPropertyRow runtime] ++ "\x7d;" ::
        heading runtime r .propertyCount ::
          (tableLines runtime r .functions .functionCount (r.container.methods.map methodRow)
            (row ["nullptr", "nullptr", "nullptr", "nullptr", "false", "false"])
            ++ accessorLines runtime r ++ ancestryLines runtime r)) := by
    rw [inlinedLines_of_ne_enum runtime hkind, tablesLines, tableLines]
    simp
  have hfilter : (bannerLines r ++ [""]).filter isDefinition = [] := by
    rw [List.filter_append, filter_bannerLines]
    decide
  rw [propertyRows, hlines]
  refine below_append (notMem_of_filter_isDefinition hfilter (isDefinition_heading ..) (by simp))
    (notMem_of_startsWith_blank ?_ (by decide)) _
  intro l hl
  rcases List.mem_append.1 hl with hl | hl
  · obtain ⟨p, -, rfl⟩ := List.mem_map.1 hl
    exact startsWith_row _
  · rw [List.mem_singleton.1 hl]
    exact startsWith_row _

theorem isDefinition_getHeading (r : Resolved) : isDefinition (getHeading runtime r) = true := by
  unfold getHeading
  split
  · exact isDefinition_memberGetHeading _
  · exact isDefinition_heading ..

theorem isDefinition_setHeading (r : Resolved) : isDefinition (setHeading runtime r) = true := by
  unfold setHeading
  split
  · exact isDefinition_memberSetHeading _
  · exact isDefinition_heading ..

theorem getSwitch_eq (hkind : r.container.kind ≠ .enum) :
    getSwitch runtime r = getBody r.container := by
  have hlines : inlinedLines runtime r = (tablesLines runtime r ++ [""]) ++ getHeading runtime r ::
      (getBody r.container ++ "\x7d" :: setHeading runtime r :: (setBody r.container
        ++ "\x7d" :: forwardLines runtime r ++ ancestryLines runtime r)) := by
    rw [inlinedLines_of_ne_enum runtime hkind, accessorLines_eq]
    simp
  have habove : getHeading runtime r ∉ tablesLines runtime r ++ [""] := by
    have hstarts := startsWith_getHeading runtime r
    rw [List.mem_append, not_or, List.mem_singleton]
    exact ⟨notMem_tablesLines runtime (isDefinition_getHeading runtime r)
        (startsWith_eq_false hstarts (by decide) (by decide)),
      ne_of_startsWith hstarts (by decide)⟩
  rw [getSwitch, hlines]
  exact below_append habove
    (notMem_of_startsWith_blank (fun l hl => startsWith_of_mem_getBody hl) (by decide)) _

theorem setSwitch_eq (hkind : r.container.kind ≠ .enum) :
    setSwitch runtime r = setBody r.container := by
  have hlines : inlinedLines runtime r = (tablesLines runtime r ++ ["", getHeading runtime r]
      ++ getBody r.container ++ ["\x7d"]) ++ setHeading runtime r :: (setBody r.container
        ++ "\x7d" :: (forwardLines runtime r ++ ancestryLines runtime r)) := by
    rw [inlinedLines_of_ne_enum runtime hkind, accessorLines_eq]
    simp
  have hstarts := startsWith_setHeading runtime r
  have habove : setHeading runtime r ∉ tablesLines runtime r ++ ["", getHeading runtime r]
      ++ getBody r.container ++ ["\x7d"] := by
    simp only [List.mem_append, List.mem_cons, List.not_mem_nil, or_false, not_or]
    refine ⟨⟨⟨?_, ?_, ?_⟩, fun hmem => ?_⟩, ?_⟩
    · exact notMem_tablesLines runtime (isDefinition_setHeading runtime r)
        (startsWith_eq_false hstarts (by decide) (by decide))
    · exact ne_of_startsWith hstarts (by decide)
    · exact ne_of_startsWith hstarts
        (startsWith_eq_false (startsWith_getHeading runtime r) (by decide) (by decide))
    · exact ne_of_startsWith (startsWith_of_mem_getBody hmem)
        (startsWith_eq_false hstarts (by decide) (by decide)) rfl
    · exact ne_of_startsWith hstarts (by decide)
  rw [setSwitch, hlines]
  exact below_append habove
    (notMem_of_startsWith_blank (fun l hl => startsWith_of_mem_setBody hl) (by decide)) _

/-- The cases of the get accessor for a property. -/
theorem filter_isCase_getSwitch (hkind : r.container.kind ≠ .enum) {i : Nat} {p : Property}
    (hp : r.container.properties[i]? = some p) :
    (getSwitch runtime r).filter (isCase i) =
      if isReachable r.container p then [getCase p.name i] else [] := by
  rw [getSwitch_eq runtime hkind, filter_isCase_getBody, hp, Option.filter_some]
  split <;> rfl

/-- The cases of the set accessor for a property. -/
theorem filter_isCase_setSwitch (hkind : r.container.kind ≠ .enum) {i : Nat} {p : Property}
    (hp : r.container.properties[i]? = some p) :
    (setSwitch runtime r).filter (isCase i) =
      if isReachable r.container p ∧ isAssignable p then [setCase p.name i] else [] := by
  rw [setSwitch_eq runtime hkind, filter_isCase_setBody, hp, Option.filter_some]
  simp only [Bool.and_eq_true]
  split <;> rfl

theorem countHeading_ne (m n : Nat) :
    countHeading (r.container.globalName .propertyCount) m ≠
      countHeading (r.container.globalName .functionCount) n := by
  unfold countHeading Container.globalName
  simp only [String.append_assoc, ne_eq, String.append_right_inj]
  exact ne_of_startsWith (startsWith_append "PropertyCount" _)
    (startsWith_eq_false (startsWith_append "FunctionCount" _) (by decide) (by decide))

theorem startsWith_memberHeading {h : String} (hmem : h ∈ memberHeadings r.container) :
    startsWith "inline constexpr " h = false := by
  unfold memberHeadings at hmem
  split at hmem
  · rename_i hmarked
    have hget := startsWith_getHeading "" r
    have hset := startsWith_setHeading "" r
    rw [getHeading, if_pos hmarked] at hget
    rw [setHeading, if_pos hmarked] at hset
    simp only [List.mem_cons, List.not_mem_nil, or_false] at hmem
    obtain rfl | rfl := hmem
    · exact startsWith_eq_false hget (by decide) (by decide)
    · exact startsWith_eq_false hset (by decide) (by decide)
  · cases hmem

/-- The counts of a container's section. -/
theorem eq_of_mem_headings (hkind : r.container.kind ≠ .enum) {h : String}
    (hmem : h ∈ headings runtime r) (hcount : startsWith "inline constexpr " h = true) :
    h = heading runtime r .propertyCount ∨ h = heading runtime r .functionCount := by
  have hother : ∀ g : Global, startsWith "inline constexpr " (opening g) = false →
      startsWith (opening g) "inline constexpr " = false →
      h ≠ heading runtime r g := fun g hg hg' =>
    ne_of_startsWith hcount (startsWith_eq_false (startsWith_heading runtime r g) hg hg')
  rw [headings, if_neg hkind, List.mem_append, List.mem_append] at hmem
  rcases hmem with (hmem | hmem) | hmem
  · obtain ⟨g, hg, rfl⟩ := List.mem_map.1 hmem
    simp only [List.mem_cons, List.not_mem_nil, or_false] at hg
    rcases hg with rfl | rfl | rfl | rfl
    · exact (hother _ (by decide) (by decide) rfl).elim
    · exact .inl rfl
    · exact (hother _ (by decide) (by decide) rfl).elim
    · exact .inr rfl
  · rw [startsWith_memberHeading hmem] at hcount
    cases hcount
  · obtain ⟨g, hg, rfl⟩ := List.mem_map.1 hmem
    simp only [List.mem_cons, List.not_mem_nil, or_false] at hg
    rcases hg with rfl | rfl | rfl | rfl <;> exact (hother _ (by decide) (by decide) rfl).elim

/-- The only count of properties is their number. -/
theorem countHeading_mem_iff (hkind : r.container.kind ≠ .enum) (n : Nat) :
    countHeading (r.container.globalName .propertyCount) n ∈ inlinedLines runtime r ↔
      n = r.container.properties.length := by
  constructor
  · intro h
    have hmem : countHeading (r.container.globalName .propertyCount) n ∈ headings runtime r := by
      rw [← filter_inlinedLines]
      exact List.mem_filter.2 ⟨h, isDefinition_countHeading ..⟩
    have hcount : startsWith "inline constexpr "
        (countHeading (r.container.globalName .propertyCount) n) = true := by
      unfold countHeading
      simp only [String.append_assoc]
      exact startsWith_trans (by decide) (startsWith_append "inline constexpr std::size_t " _)
    rcases eq_of_mem_headings runtime hkind hmem hcount with heq | heq
    · have heq : countHeading (r.container.globalName .propertyCount) n =
          countHeading (r.container.globalName .propertyCount) r.container.properties.length := heq
      unfold countHeading at heq
      rw [String.append_left_inj, String.append_right_inj] at heq
      exact eq_of_toString_eq heq
    · exact (countHeading_ne n _ heq).elim
  · rintro rfl
    have hmem : heading runtime r .propertyCount ∈ headings runtime r := by
      rw [headings, if_neg hkind]
      simp
    rw [← filter_inlinedLines] at hmem
    exact (List.mem_filter.1 hmem).1

end Sections

end Tables

/-! ## The lines of a registration block -/

namespace Registration

variable (options : GenerationOptions) (r : Resolved)

/-- The lines of the block of a container. -/
def blockLines : List String :=
  let c := r.container
  ["", invoke options "BEGIN" [c.qualifiedName, quote c.identity,
      "0x" ++ hex16 (stableTypeId c.fileId c.qualifiedName) ++ "ULL"]]
    ++ (directBases r).map (fun base => entry options "BASE" [base.qualifiedName])
    ++ c.properties.zipIdx.map (fun (p, i) => entry options "PROPERTY" (propertyArguments p i))
    ++ c.methods.zipIdx.map (fun (m, i) => entry options "FUNCTION" (methodArguments m i))
    ++ c.enumerators.zipIdx.map (fun (e, i) => entry options "ENUMERATOR" [toString i, e.name])
    ++ [invoke options "END" [c.qualifiedName]]

/-- The lines of a container's section in the inline part. -/
def inlinedLines : List String :=
  if options.typeInfo then blockLines options r else []

theorem generate_inlined : generate options r .inlined = lines (inlinedLines options r) := by
  unfold generate inlinedLines
  dsimp only
  split <;> rfl

/-- What a line for something inside a block starts with. -/
def entryStart (name : String) : String :=
  "    " ++ options.macroPrefix ++ "_TYPE_" ++ name ++ "("

/-- The lines for properties. -/
def propertyEntries : List String :=
  (inlinedLines options r).filter (startsWith (entryStart options "PROPERTY"))

/-- The lines inside the block of a container: the name of a macro and its arguments. -/
def blockEntries : List (String × List String) :=
  let c := r.container
  (directBases r).map (fun base => ("BASE", [base.qualifiedName]))
    ++ c.properties.zipIdx.map (fun (p, i) => ("PROPERTY", propertyArguments p i))
    ++ c.methods.zipIdx.map (fun (m, i) => ("FUNCTION", methodArguments m i))
    ++ c.enumerators.zipIdx.map (fun (e, i) => ("ENUMERATOR", [toString i, e.name]))

theorem blockLines_eq :
    blockLines options r =
      ["", invoke options "BEGIN" [r.container.qualifiedName, quote r.container.identity,
        "0x" ++ hex16 (stableTypeId r.container.fileId r.container.qualifiedName) ++ "ULL"]]
      ++ (blockEntries r).map (fun (name, arguments) => entry options name arguments)
      ++ [invoke options "END" [r.container.qualifiedName]] := by
  simp [blockLines, blockEntries, Function.comp_def]

/-- A line inside a block tells the name of its macro. -/
theorem startsWith_entry {start name : String} (hstart : '(' ∉ start.toList)
    (hname : '(' ∉ name.toList) (arguments : List String) :
    startsWith (entryStart options start) (entry options name arguments) =
      decide (name = start) := by
  unfold entryStart entry invoke
  simp only [String.append_assoc]
  rw [startsWith_append_left, startsWith_append_left, startsWith_append_left, Bool.eq_iff_iff,
    startsWith_iff, decide_eq_true_eq]
  constructor
  · rintro ⟨more, hmore⟩
    have hmore : start.toList ++ '(' :: more =
        name.toList ++ '(' :: (", ".intercalate arguments ++ ")").toList := by
      simpa using hmore
    -- the name is what stands before the first parenthesis
    have hcut : ∀ (word : String) (cs : List Char), '(' ∉ word.toList →
        (word.toList ++ '(' :: cs).takeWhile (· ≠ '(') = word.toList := by
      intro word cs hword
      rw [List.takeWhile_append_of_pos fun c hc => decide_eq_true (ne_of_mem_of_not_mem hc hword)]
      simp
    have hnames := congrArg (List.takeWhile (· ≠ '(')) hmore
    rw [hcut start _ hstart, hcut name _ hname] at hnames
    exact String.toList_inj.1 hnames.symm
  · rintro rfl
    rw [String.toList_append, String.toList_append, List.prefix_append_right_inj,
      String.toList_append]
    exact List.prefix_append ..

/-- A text that starts in the same way with blanks in front has nothing but blanks before its first
underscore. -/
theorem not_blanks_prefix (cs rest more : List Char) (k : Nat) :
    ¬List.replicate (k + 1) ' ' ++ cs ++ rest <+: cs ++ '_' :: more := by
  induction cs with
  | nil =>
    intro h
    have := (List.cons_prefix_cons.1 h).1
    cases this
  | cons c cs ih =>
    intro h
    obtain ⟨rfl, h⟩ := List.cons_prefix_cons.1 h
    refine ih ?_
    rw [List.replicate_succ', List.append_assoc _ [' '], List.singleton_append]
    exact h

theorem startsWith_invoke (start name : String) (arguments : List String) :
    startsWith (entryStart options start) (invoke options name arguments) = false := by
  rw [Bool.eq_false_iff, ne_eq, startsWith_iff]
  unfold entryStart invoke
  simp only [String.append_assoc, String.toList_append]
  have h := not_blanks_prefix options.macroPrefix.toList ("_TYPE_" ++ start ++ "(").toList
    ("TYPE_" ++ name ++ "(" ++ ", ".intercalate arguments ++ ")").toList 3
  simpa using h

/-- The lines of a block for one macro. -/
theorem filter_blockEntries {start : String} (hstart : '(' ∉ start.toList) :
    (blockLines options r).filter (startsWith (entryStart options start)) =
      ((blockEntries r).filter (·.1 = start)).map
        fun (name, arguments) => entry options name arguments := by
  have hempty : startsWith (entryStart options start) "" = false := by
    unfold entryStart
    simp [startsWith]
  have hnames : ∀ e ∈ blockEntries r, '(' ∉ e.1.toList := by
    intro e he
    have hname : e.1 ∈ ["BASE", "PROPERTY", "FUNCTION", "ENUMERATOR"] := by
      simp only [blockEntries, List.mem_append, List.mem_map] at he
      rcases he with ((⟨_, -, rfl⟩ | ⟨_, -, rfl⟩) | ⟨_, -, rfl⟩) | ⟨_, -, rfl⟩ <;> simp
    have hplain : ∀ name ∈ ["BASE", "PROPERTY", "FUNCTION", "ENUMERATOR"], '(' ∉ name.toList := by
      decide
    exact hplain _ hname
  have hentries : ∀ e ∈ blockEntries r,
      startsWith (entryStart options start) (entry options e.1 e.2) = decide (e.1 = start) :=
    fun e he => startsWith_entry options hstart (hnames e he) e.2
  rw [blockLines_eq]
  simp [List.filter_append, List.filter_map, Function.comp_def, hempty, startsWith_invoke,
    List.filter_congr hentries]

theorem filter_blockLines :
    (blockLines options r).filter (startsWith (entryStart options "PROPERTY")) =
      r.container.properties.zipIdx.map fun (p, i) =>
        entry options "PROPERTY" (propertyArguments p i) := by
  rw [filter_blockEntries options r (by decide)]
  simp [blockEntries, List.filter_append, List.filter_map, Function.comp_def]

theorem propertyEntries_eq :
    propertyEntries options r =
      if options.typeInfo then r.container.properties.zipIdx.map fun (p, i) =>
        entry options "PROPERTY" (propertyArguments p i) else [] := by
  unfold propertyEntries inlinedLines
  split
  · exact filter_blockLines options r
  · rfl

theorem propertyEntry_eq (p : Property) (i : Nat) :
    entry options "PROPERTY" (propertyArguments p i) =
      "    " ++ options.macroPrefix ++ "_TYPE_PROPERTY(" ++ toString i ++ ", " ++ p.name ++ ", "
        ++ quote p.type.render ++ ", " ++ quote p.attributes.render ++ ")" := by
  rw [← String.toList_inj]
  simp [entry, invoke, propertyArguments]

end Registration

/-! ## Places -/

open Tables in
/-- **Everything that is generated for the properties of a class or struct counts them alike.** The
row, the cases and the line of the registration block at a place show the name of the property that
has this place in the container, and the last three show the place. There is a row for each property
and a last one behind them, and the count is their number. The get accessor has one case for each
property that it reaches, and none for other places; of these the set accessor has the ones that can
be assigned to. -/
theorem indices_agree (options : GenerationOptions) (r : Resolved)
    (hkind : r.container.kind ≠ .enum) :
    Tables.generate options r .inlined = lines (inlinedLines options.runtimeNamespace r) ∧
    Registration.generate options r .inlined = lines (Registration.inlinedLines options r) ∧
    (propertyRows options.runtimeNamespace r).length = r.container.properties.length + 1 ∧
    (propertyRows options.runtimeNamespace r).getLast? =
      some ("    \x7b nullptr, nullptr, nullptr, nullptr, " ++ options.runtimeNamespace
        ++ "::Visibility::Public \x7d,") ∧
    (∀ n : Nat, "inline constexpr std::size_t " ++ r.container.symbol ++ "_PropertyCount = "
        ++ toString n ++ ";" ∈ inlinedLines options.runtimeNamespace r ↔
      n = r.container.properties.length) ∧
    (Registration.propertyEntries options r).length =
      (if options.typeInfo then r.container.properties.length else 0) ∧
    (∀ i p, r.container.properties[i]? = some p →
      (propertyRows options.runtimeNamespace r)[i]? = some
        ("    \x7b \"" ++ p.name ++ "\", " ++ quote (displayName p.name p.type.name p.attributes)
          ++ ", " ++ quote p.type.render ++ ", " ++ quote p.attributes.render ++ ", "
          ++ options.runtimeNamespace ++ "::Visibility::" ++ p.visibility.descriptor
          ++ " \x7d,") ∧
      (options.typeInfo = true → (Registration.propertyEntries options r)[i]? = some
        ("    " ++ options.macroPrefix ++ "_TYPE_PROPERTY(" ++ toString i ++ ", " ++ p.name ++ ", "
          ++ quote p.type.render ++ ", " ++ quote p.attributes.render ++ ")")) ∧
      (getSwitch options.runtimeNamespace r).filter (isCase i) =
        (if r.container.generatedBodyLine.isSome ∨ p.visibility = .public
          then ["        case " ++ toString i ++ ": return &self->" ++ p.name ++ ";"] else []) ∧
      (setSwitch options.runtimeNamespace r).filter (isCase i) =
        (if (r.container.generatedBodyLine.isSome ∨ p.visibility = .public) ∧ isAssignable p
          then ["        case " ++ toString i ++ ": self->" ++ p.name
            ++ " = *static_cast<const decltype(self->" ++ p.name ++ ")*>(value); return true;"]
          else [])) ∧
    ∀ i, r.container.properties.length ≤ i →
      (getSwitch options.runtimeNamespace r).filter (isCase i) = [] ∧
      (setSwitch options.runtimeNamespace r).filter (isCase i) = [] := by
  have hrows := propertyRows_eq options.runtimeNamespace hkind
  have hentries := Registration.propertyEntries_eq options r
  refine ⟨Tables.generate_inlined options r, Registration.generate_inlined options r, ?_, ?_,
    fun n => ?_, ?_, fun i p hp => ⟨?_, fun htypes => ?_, ?_, ?_⟩, fun i hi => ⟨?_, ?_⟩⟩
  · rw [hrows]
    simp
  · rw [hrows, List.getLast?_concat, lastPropertyRow_eq]
  · rw [← countHeading_propertyCount]
    exact countHeading_mem_iff _ hkind n
  · rw [hentries]
    split <;> simp
  · obtain ⟨hi, rfl⟩ := List.getElem?_eq_some_iff.1 hp
    rw [hrows, List.getElem?_append_left (by simpa using hi), ← propertyRow_eq]
    simp [hi]
  · rw [hentries, if_pos htypes, ← Registration.propertyEntry_eq]
    simp [hp]
  · have hcases := filter_isCase_getSwitch options.runtimeNamespace hkind hp
    simp only [isReachable, Bool.or_eq_true, decide_eq_true_eq] at hcases
    exact hcases
  · have hcases := filter_isCase_setSwitch options.runtimeNamespace hkind hp
    simp only [isReachable, Bool.or_eq_true, decide_eq_true_eq] at hcases
    exact hcases
  · rw [getSwitch_eq _ hkind, filter_isCase_getBody, List.getElem?_eq_none hi]
    rfl
  · rw [setSwitch_eq _ hkind, filter_isCase_setBody, List.getElem?_eq_none hi]
    rfl

/-- A struct whose first property is private. -/
def hiddenFirst : Resolved where
  container :=
    { name := "S", kind := .struct, fileId := "a.h", position := .start
      properties :=
        [⟨"a", { name := "int" }, .private, [], .start⟩,
          ⟨"b", { name := "int" }, .public, [], .start⟩] }
  ancestors := []

/-- The second property keeps its place where the accessors leave out the first. -/
theorem indices_agree_hiddenFirst :
    hiddenFirst.container.kind ≠ .enum ∧
    (Tables.propertyRows "::reflect" hiddenFirst)[1]? =
      some "    \x7b \"b\", \"B\", \"int\", \"\", ::reflect::Visibility::Public \x7d," ∧
    (Registration.propertyEntries { typeInfo := true } hiddenFirst)[0]? =
      some "    REFLECT_TYPE_PROPERTY(0, a, \"int\", \"\")" ∧
    (Registration.propertyEntries { typeInfo := true } hiddenFirst)[1]? =
      some "    REFLECT_TYPE_PROPERTY(1, b, \"int\", \"\")" ∧
    (Tables.getSwitch "::reflect" hiddenFirst).filter (Tables.isCase 0) = [] ∧
    (Tables.setSwitch "::reflect" hiddenFirst).filter (Tables.isCase 0) = [] ∧
    (Tables.getSwitch "::reflect" hiddenFirst).filter (Tables.isCase 1) =
      ["        case 1: return &self->b;"] ∧
    (Tables.setSwitch "::reflect" hiddenFirst).filter (Tables.isCase 1) =
      ["        case 1: self->b = *static_cast<const decltype(self->b)*>(value); return true;"] := by
  have hkind : hiddenFirst.container.kind ≠ .enum := by decide
  obtain ⟨-, -, -, -, -, -, hplaces, -⟩ :=
    indices_agree { typeInfo := true } hiddenFirst hkind
  obtain ⟨-, hentry, hget, hset⟩ := hplaces 0 _ rfl
  obtain ⟨hrow', hentry', hget', hset'⟩ := hplaces 1 _ rfl
  exact ⟨hkind, hrow'.trans (by decide +kernel), (hentry rfl).trans (by decide +kernel),
    (hentry' rfl).trans (by decide +kernel), hget.trans (by decide), hset.trans (by decide),
    hget'.trans (by decide), hset'.trans (by decide)⟩

end HeaderReflection
