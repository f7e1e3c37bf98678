import HeaderReflection.Project.Dump
import HeaderReflection.Proofs.Json.Lines

/-!
# Lines of dumps

A dump has a line for the identifier of each file and, below it, one each for the name, the kind
and the file of each container. They are told by their indentation and their key, whatever the
attributes and the other parts of the containers are.

* `naming_eq_nil`: the lines of a value inside a container are none of them.
* `namingLines_dump`: the lines of a dump that name files and containers.
-/

namespace HeaderReflection.Project

open Json (blocks bracketed memberText quoted renderAt)

/-! ## Naming lines -/

/-- What the lines start with that name a file, or a container of a file. -/
def namingStarts : List String :=
  ["    \"file_id\": ", "        \"name\": ", "        \"kind\": ", "        \"file_id\": "]

/-- The line names a file, or a container of a file. -/
def isNaming (line : List Char) : Bool :=
  namingStarts.any fun start => start.toList.isPrefixOf line

/-- The lines that name files and containers. -/
def naming (cs : List Char) : List (List Char) := (textLines cs).filter isNaming

theorem naming_append_newline (cs ds : List Char) :
    naming (cs ++ '\n' :: ds) = naming cs ++ naming ds := by
  rw [naming, textLines_append_newline, List.filter_append]
  rfl

theorem naming_of_notMem {cs : List Char} (h : '\n' ∉ cs) :
    naming cs = if isNaming cs then [cs] else [] := by
  rw [naming, textLines_of_notMem h, List.filter_singleton]
  cases isNaming cs <;> rfl

theorem isNaming_append {start : String} (h : start ∈ namingStarts) (rest : List Char) :
    isNaming (start.toList ++ rest) = true :=
  List.any_eq_true.2 ⟨start, h, List.isPrefixOf_iff_prefix.2 (List.prefix_append ..)⟩

/-- A line that starts in another way is none of them, whatever it goes on with. -/
theorem isNaming_append_eq_false {cs : List Char}
    (h : ∀ start ∈ namingStarts, start.toList.isPrefixOf cs = false ∧
      cs.isPrefixOf start.toList = false) (rest : List Char) : isNaming (cs ++ rest) = false := by
  refine List.any_eq_false.2 fun start hstart hprefix => ?_
  obtain ⟨hlong, hshort⟩ := h start hstart
  have hline : start.toList <+: cs ++ rest := List.isPrefixOf_iff_prefix.1 hprefix
  rcases List.prefix_or_prefix_of_prefix hline (List.prefix_append cs rest) with hp | hp
  · rw [List.isPrefixOf_iff_prefix.2 hp] at hlong
    cases hlong
  · rw [List.isPrefixOf_iff_prefix.2 hp] at hshort
    cases hshort

/-- A line that goes on with something else than a quote behind eight blanks. -/
theorem isNaming_indented {c : Char} (hc : c ≠ '\x22') (rest : List Char) :
    isNaming (List.replicate 8 ' ' ++ c :: rest) = false := by
  have hne : ('\x22' == c) = false := by simpa using hc.symm
  simp [isNaming, namingStarts, List.replicate_succ, List.isPrefixOf, hne]

/-- A value inside a container, behind the start of its line. -/
theorem naming_eq_nil {start value : List Char} (hline : '\n' ∉ start)
    (hstart : ∀ rest, isNaming (start ++ rest) = false) (hvalue : Indented 8 value) :
    naming (start ++ value) = [] := by
  induction hn : value.length using Nat.strong_induction_on generalizing start value with
  | _ n ih =>
    by_cases hnewline : '\n' ∈ value
    · obtain ⟨before, after, rfl, hbefore⟩ := List.eq_append_cons_of_mem hnewline
      obtain ⟨c, rest, rfl, hquote, hc⟩ := hvalue before after rfl
      have hrest : Indented 8 rest := by
        rw [List.append_cons, List.append_cons (List.replicate 8 ' '),
          ← List.append_assoc] at hvalue
        exact hvalue.of_append
      have hline' : '\n' ∉ List.replicate 8 ' ' ++ [c] := by simpa using hc.symm
      have hstart' (more : List Char) :
          isNaming (List.replicate 8 ' ' ++ [c] ++ more) = false := by
        simpa using isNaming_indented hquote more
      have hshort : rest.length < n := by
        rw [← hn]
        simp only [List.length_append, List.length_cons]
        omega
      have hnext := ih rest.length hshort hline' hstart' hrest rfl
      rw [← List.append_assoc, naming_append_newline,
        naming_of_notMem (by simp [hline, hbefore]), hstart]
      simpa using hnext
    · rw [naming_of_notMem (by simp [hline, hnewline]), hstart]
      rfl

/-! ## Brackets -/

/-- The naming lines of brackets whose own lines name nothing. -/
theorem naming_bracketed {level : Nat} {first last : String} {items : List String}
    (hne : items ≠ []) {before after : List Char}
    (hfirst : naming (before ++ first.toList) = [])
    (hlast : naming (List.replicate (2 * level) ' ' ++ last.toList ++ after) = []) :
    naming (before ++ (bracketed level first last items).toList ++ after) =
      (blocks (level + 1) items).flatMap naming := by
  have hlines := textLines_flatMap (before ++ first.toList)
    (List.replicate (2 * level) ' ' ++ last.toList ++ after) (blocks (level + 1) items)
  have htext : before ++ (bracketed level first last items).toList ++ after =
      before ++ first.toList ++ ((blocks (level + 1) items).flatMap ('\n' :: ·) ++
        '\n' :: (List.replicate (2 * level) ' ' ++ last.toList ++ after)) := by
    rw [Json.toList_bracketed hne]
    simp
  rw [htext, naming, hlines, List.filter_append, List.filter_append, List.filter_flatMap]
  change naming _ ++ (List.flatMap naming _ ++ naming _) = _
  rw [hfirst, hlast, List.nil_append, List.append_nil]

/-- Items with the same naming lines in front of a comma as without one. -/
theorem flatMap_naming_blocks {α : Type} {level : Nat} {xs : List α} {text : α → String}
    {named : α → List (List Char)}
    (h : ∀ x ∈ xs, ∀ after ∈ [[], [',']],
      naming (List.replicate (2 * level) ' ' ++ (text x).toList ++ after) = named x) :
    (blocks level (xs.map text)).flatMap naming = xs.flatMap named := by
  induction xs with
  | nil => rfl
  | cons x xs ih =>
    have hrest := ih fun y hy => h y (List.mem_cons_of_mem _ hy)
    cases xs with
    | nil => simpa [blocks] using h x (by simp) [] (by simp)
    | cons y ys =>
      have hx := h x (by simp) [','] (by simp)
      rw [List.map_cons, List.map_cons, blocks, List.flatMap_cons, hx, ← List.map_cons, hrest]
      · rfl
      · simp

/-! ## Containers -/

/-- The keys of a container's members whose lines do not name it. -/
def otherKeys : List String :=
  ["scope", "location", "bases", "properties", "functions", "attributes", "generated_body_line",
    "enumerators", "underlying", "ancestors"]

theorem naming_member {m : String × Json} (hkey : m.1 ∈ otherKeys) :
    ∀ after ∈ [[], [',']],
      naming (List.replicate (2 * 4) ' ' ++ (memberText 4 m).toList ++ after) = [] := by
  intro after hafter
  have hstarts : ∀ key ∈ otherKeys, ∀ start ∈ namingStarts,
      start.toList.isPrefixOf (List.replicate 8 ' ' ++ (quoted key ++ ": ").toList) = false ∧
        (List.replicate 8 ' ' ++ (quoted key ++ ": ").toList).isPrefixOf start.toList = false := by
    decide +kernel
  have hline : '\n' ∉ List.replicate 8 ' ' ++ (quoted m.1 ++ ": ").toList := by
    simp [Json.newline_notMem_quoted]
  have hcomma : '\n' ∉ after := by
    revert after
    decide
  have hnone := naming_eq_nil hline (isNaming_append_eq_false (hstarts m.1 hkey))
    ((Json.indented_renderAt 4 m.2).append (.of_notMem hcomma))
  simpa [memberText] using hnone

/-- The line of a member that names a container. -/
theorem naming_string {key : String} (hkey : key ∈ ["name", "kind", "file_id"]) (s : String) :
    naming (List.replicate (2 * 4) ' ' ++ (memberText 4 (key, .string s)).toList ++ [',']) =
      [("        \"" ++ key ++ "\": " ++ quoted s ++ ",").toList] := by
  have hkeys : ∀ key ∈ ["name", "kind", "file_id"], quoted key = "\"" ++ key ++ "\"" ∧
      "        \"" ++ key ++ "\": " ∈ namingStarts ∧ '\n' ∉ key.toList := by decide +kernel
  obtain ⟨hquoted, hstart, hplain⟩ := hkeys key hkey
  have htext : List.replicate (2 * 4) ' ' ++ (memberText 4 (key, .string s)).toList ++ [','] =
      ("        \"" ++ key ++ "\": ").toList ++ ((quoted s).toList ++ [',']) := by
    simp [memberText, hquoted, renderAt, List.replicate_succ]
  rw [htext, naming_of_notMem (by simp [hplain, Json.newline_notMem_quoted]),
    if_pos (isNaming_append hstart _)]
  simp

theorem naming_members {ms : List (String × Json)} (h : ∀ m ∈ ms, m.1 ∈ otherKeys) :
    (blocks 4 (ms.map (memberText 4))).flatMap naming = [] := by
  have hnone := flatMap_naming_blocks fun m hm => naming_member (h m hm)
  rw [hnone]
  simp

theorem naming_cons (m : String × Json) {ms : List (String × Json)} (hne : ms ≠ []) :
    (blocks 4 ((m :: ms).map (memberText 4))).flatMap naming =
      naming (List.replicate (2 * 4) ' ' ++ (memberText 4 m).toList ++ [',']) ++
        (blocks 4 (ms.map (memberText 4))).flatMap naming := by
  rw [List.map_cons, Json.blocks_cons _ _ (by simpa using hne), List.flatMap_cons]

theorem naming_append {before ms : List (String × Json)} (h : ∀ m ∈ before, m.1 ∈ otherKeys)
    (hne : ms ≠ []) :
    (blocks 4 ((before ++ ms).map (memberText 4))).flatMap naming =
      (blocks 4 (ms.map (memberText 4))).flatMap naming := by
  induction before with
  | nil => rfl
  | cons m before ih =>
    rw [List.cons_append, naming_cons _ (by simp [hne]),
      naming_member (h m List.mem_cons_self) _ (by simp), List.nil_append,
      ih fun m hm => h m (List.mem_cons_of_mem _ hm)]

/-- The lines that name a container. -/
def containerLines (r : Resolved) : List (List Char) :=
  [("        \"name\": " ++ quoted r.container.name ++ ",").toList,
    ("        \"kind\": " ++ quoted r.container.kind.word ++ ",").toList,
    ("        \"file_id\": " ++ quoted r.container.fileId ++ ",").toList]

/-- The members of the document of a container, with those that name it in front. -/
theorem exists_members (r : Resolved) : ∃ before others : List (String × Json),
    r.toJson = .object (("name", .string r.container.name) ::
      ("kind", .string r.container.kind.word) ::
        (before ++ ("file_id", .string r.container.fileId) :: others)) ∧
      (∀ m ∈ before, m.1 ∈ otherKeys) ∧ (∀ m ∈ others, m.1 ∈ otherKeys) ∧ others ≠ [] := by
  let c := r.container
  refine ⟨if c.scope.isEmpty then [] else [("scope", .array (c.scope.map .string))],
    [("location", c.position.toJson), ("bases", .array (c.bases.map TypeRef.toJson)),
      ("properties", .array (c.properties.map Property.toJson)),
      ("functions", .array (c.methods.map Method.toJson)), ("attributes", c.attributes.toJson),
      ("generated_body_line", .ofOption .count c.generatedBodyLine),
      ("enumerators", .array (c.enumerators.map Enumerator.toJson)),
      ("underlying", .ofOption TypeRef.toJson c.underlying),
      ("ancestors", .array (r.ancestors.map fun a => .string a.name))], ?_, ?_, ?_, by simp⟩
  · simp [Resolved.toJson, Container.members, c]
  · split <;> simp [otherKeys]
  · simp [otherKeys]

theorem naming_container (r : Resolved) : ∀ after ∈ [[], [',']],
    naming (List.replicate (2 * 3) ' ' ++ (renderAt 3 r.toJson).toList ++ after) =
      containerLines r := by
  intro after hafter
  have hlast : naming (List.replicate (2 * 3) ' ' ++ "\x7d".toList ++ after) = [] := by
    revert after
    decide
  obtain ⟨before, others, hmembers, hbefore, hothers, hne⟩ := exists_members r
  rw [hmembers, renderAt, Json.renderMembers_eq_map, naming_bracketed (by simp) (by decide) hlast,
    naming_cons _ (by simp), naming_cons _ (by simp), naming_append hbefore (by simp),
    naming_cons _ hne, naming_members hothers, naming_string (by simp), naming_string (by simp),
    naming_string (by simp)]
  rfl

/-! ## Files -/

/-- The document of a file with its containers. -/
def fileJson (x : SourceFile × List Resolved) : Json :=
  .object [("file_id", .string x.1.fileId), ("containers", .array (x.2.map Resolved.toJson))]

/-- The lines that name a file and its containers. -/
def fileLines (x : SourceFile × List Resolved) : List (List Char) :=
  ("    \"file_id\": " ++ quoted x.1.fileId ++ ",").toList :: x.2.flatMap containerLines

theorem naming_containers (rs : List Resolved) :
    naming ("    \"containers\": ".toList ++
      (renderAt 2 (.array (rs.map Resolved.toJson))).toList) = rs.flatMap containerLines := by
  by_cases hne : rs = []
  · subst hne
    decide
  have hbrackets : naming ("    \"containers\": ".toList ++
      (bracketed 2 "[" "]" (rs.map fun r => renderAt 3 r.toJson)).toList ++ []) = _ :=
    naming_bracketed (by simpa using hne) (by decide) (by decide)
  rw [List.append_nil, flatMap_naming_blocks fun r _ => naming_container r] at hbrackets
  rw [renderAt, Json.renderItems_eq_map, List.map_map]
  exact hbrackets

theorem naming_file (x : SourceFile × List Resolved) : ∀ after ∈ [[], [',']],
    naming (List.replicate (2 * 1) ' ' ++ (renderAt 1 (fileJson x)).toList ++ after) =
      fileLines x := by
  intro after hafter
  have hlast : naming (List.replicate (2 * 1) ' ' ++ "\x7d".toList ++ after) = [] := by
    revert after
    decide
  have hkeys : quoted "file_id" = "\"file_id\"" ∧ quoted "containers" = "\"containers\"" := by
    decide
  have hid : naming (List.replicate (2 * 2) ' ' ++
      (memberText 2 ("file_id", .string x.1.fileId)).toList ++ [',']) =
      [("    \"file_id\": " ++ quoted x.1.fileId ++ ",").toList] := by
    have htext : List.replicate (2 * 2) ' ' ++
        (memberText 2 ("file_id", .string x.1.fileId)).toList ++ [','] =
        "    \"file_id\": ".toList ++ ((quoted x.1.fileId).toList ++ [',']) := by
      simp [memberText, hkeys, renderAt, List.replicate_succ]
    rw [htext, naming_of_notMem (by simp [Json.newline_notMem_quoted]),
      if_pos (isNaming_append (by simp [namingStarts]) _)]
    simp
  have hcontainers : (blocks 2
      [memberText 2 ("containers", .array (x.2.map Resolved.toJson))]).flatMap naming =
      x.2.flatMap containerLines := by
    rw [← naming_containers]
    simp [blocks, memberText, hkeys, List.replicate_succ]
  rw [fileJson, renderAt, Json.renderMembers_eq_map, naming_bracketed (by simp) (by decide) hlast,
    List.map_cons, Json.blocks_cons _ _ (by simp), List.flatMap_cons, hid]
  exact congrArg ([_] ++ ·) hcontainers

/-- The lines of a text that name a file of a dump, or a container of one. -/
def namingLines (text : String) : List String :=
  (naming text.toList).map String.ofList

/-- A dump names each file and, below it, its containers. -/
theorem namingLines_dump (shares : List (SourceFile × List Resolved)) :
    namingLines (Json.array (shares.map fileJson)).render = shares.flatMap fun x =>
      ("    \"file_id\": " ++ quoted x.1.fileId ++ ",") :: x.2.flatMap fun r =>
        ["        \"name\": " ++ quoted r.container.name ++ ",",
          "        \"kind\": " ++ quoted r.container.kind.word ++ ",",
          "        \"file_id\": " ++ quoted r.container.fileId ++ ","] := by
  have hnaming : naming (Json.array (shares.map fileJson)).render.toList =
      shares.flatMap fileLines := by
    by_cases hne : shares = []
    · subst hne
      decide
    have hbrackets : naming ([] ++
        (bracketed 0 "[" "]" (shares.map fun x => renderAt 1 (fileJson x))).toList ++ []) = _ :=
      naming_bracketed (by simpa using hne) (by decide) (by decide)
    rw [List.append_nil, List.nil_append, flatMap_naming_blocks fun x _ => naming_file x]
      at hbrackets
    rw [Json.render, renderAt, Json.renderItems_eq_map, List.map_map]
    exact hbrackets
  rw [namingLines, hnaming, List.map_flatMap]
  refine List.flatMap_congr fun x _ => ?_
  simp only [fileLines, containerLines, List.map_cons, List.map_nil, List.map_flatMap,
    String.ofList_toList]

end HeaderReflection.Project
