import HeaderReflection.Artifact.Tables
import HeaderReflection.Proofs.Container.Symbols
import HeaderReflection.Proofs.Scope.Names

/-!
# Global names in generated code

The inline part of an artifact defines tables and functions at global scope, each called by a
container's symbol, an underscore and a word for what it is. Qualified names are different for all
containers of a file, but a symbol has underscores for the scope marks of such a name, so it tells
no more than the words between them.

* `Tables.generate_inlined`, `Tables.filter_inlinedLines`: what the section of a container defines.
* `Container.globalName_eq_iff`: a global's name tells the symbol and the word.
* `nodup_globals_iff`: when all globals of some containers have different names.
* `globals_apart`: what keeps the globals of a file apart.
* `globals_shared`: two containers of a file that share a symbol.
-/

namespace HeaderReflection

/-! ## Names of globals -/

/-- What generated code defines at global scope for a container. -/
inductive Global where
  | properties
  | propertyCount
  | functions
  | functionCount
  | getProperty
  | setProperty
  | ancestors
  | isA
  | enumerators
  | enumeratorCount
  deriving DecidableEq, Repr

namespace Global

/-- The last word of a global's name. -/
def word : Global → String
  | properties => "Properties"
  | propertyCount => "PropertyCount"
  | functions => "Functions"
  | functionCount => "FunctionCount"
  | getProperty => "GetProperty"
  | setProperty => "SetProperty"
  | ancestors => "Ancestors"
  | isA => "IsA"
  | enumerators => "Enumerators"
  | enumeratorCount => "EnumeratorCount"

/-- The globals of a container of some kind, in the order of their definitions. -/
def ofKind (kind : ContainerKind) : List Global :=
  if kind = .enum then [enumerators, enumeratorCount]
  else [properties, propertyCount, functions, functionCount, getProperty, setProperty, ancestors,
    isA]

theorem eq_of_word_eq {g h : Global} (he : g.word = h.word) : g = h := by
  cases g <;> cases h <;> first | rfl | exact absurd he (by decide)

theorem underscore_notMem_word (g : Global) : '_' ∉ g.word.toList := by
  cases g <;> decide

theorem nodup_ofKind (kind : ContainerKind) : (ofKind kind).Nodup := by
  unfold ofKind
  split <;> decide

/-- Enums have other globals than classes and structs. -/
theorem exists_mem_ofKind_iff {kind kind' : ContainerKind} :
    (∃ g, g ∈ ofKind kind ∧ g ∈ ofKind kind') ↔ (kind = .enum ↔ kind' = .enum) := by
  by_cases h : kind = .enum <;> by_cases h' : kind' = .enum <;> simp [ofKind, h, h']

end Global

namespace Container

/-- The name of a container's global. -/
def globalName (c : Container) (g : Global) : String :=
  c.symbol ++ "_" ++ g.word

/-- The names of a container's globals. -/
def globals (c : Container) : List String :=
  (Global.ofKind c.kind).map c.globalName

/-- A global's name tells the symbol of the container and what the global is. -/
theorem globalName_eq_iff {x y : Container} {g h : Global} :
    x.globalName g = y.globalName h ↔ x.symbol = y.symbol ∧ g = h := by
  refine ⟨fun he => ?_, fun ⟨hs, hg⟩ => by rw [globalName, hs, hg]; rfl⟩
  obtain ⟨hs, hw⟩ := underscore_append_inj g.underscore_notMem_word h.underscore_notMem_word he
  exact ⟨hs, Global.eq_of_word_eq hw⟩

theorem nodup_globals (c : Container) : c.globals.Nodup :=
  (Global.nodup_ofKind c.kind).map fun _ _ h => (globalName_eq_iff.1 h).2

/-- Two containers share a global if they share their symbol, and are both enums or both not. -/
theorem disjoint_globals_iff {x y : Container} :
    List.Disjoint x.globals y.globals ↔
      (x.symbol = y.symbol → ¬(x.kind = .enum ↔ y.kind = .enum)) := by
  rw [← Global.exists_mem_ofKind_iff]
  constructor
  · rintro hdisjoint hs ⟨g, hx, hy⟩
    refine hdisjoint (List.mem_map_of_mem hx) (List.mem_map.2 ⟨g, hy, ?_⟩)
    exact globalName_eq_iff.2 ⟨hs.symm, rfl⟩
  · intro hne n hx hy
    obtain ⟨g, hg, rfl⟩ := List.mem_map.1 hx
    obtain ⟨h, hh, he⟩ := List.mem_map.1 hy
    obtain ⟨hs, rfl⟩ := globalName_eq_iff.1 he
    exact hne hs.symm ⟨h, hg, hh⟩

end Container

/-- All globals of some containers have different names just if no two of the containers share a
symbol that are both enums or both not. -/
theorem nodup_globals_iff {cs : List Container} :
    (cs.flatMap Container.globals).Nodup ↔
      cs.Pairwise fun x y => x.symbol = y.symbol → ¬(x.kind = .enum ↔ y.kind = .enum) := by
  rw [List.nodup_flatMap]
  exact (and_iff_right fun c _ => c.nodup_globals).trans
    ⟨fun h => h.imp Container.disjoint_globals_iff.1,
      fun h => h.imp Container.disjoint_globals_iff.2⟩

/-! ## Definitions in the inline part -/

namespace Tables

/-- The line starts a definition. -/
def isDefinition (line : String) : Bool :=
  "inline ".toList.isPrefixOf line.toList

/-- The line that starts a table. -/
def tableHeading (runtime descriptor name : String) : String :=
  "inline const " ++ runtime ++ "::" ++ descriptor ++ " " ++ name ++ "[] = \x7b"

/-- The line that defines the count of a table's rows. -/
def countHeading (name : String) (rows : Nat) : String :=
  "inline constexpr std::size_t " ++ name ++ " = " ++ toString rows ++ ";"

/-- The line that starts the definition of a global. -/
def heading (runtime : String) (r : Resolved) (g : Global) : String :=
  let c := r.container
  let name := c.globalName g
  match g with
  | .properties => tableHeading runtime "PropertyDesc" name
  | .functions => tableHeading runtime "FunctionDesc" name
  | .enumerators => tableHeading runtime "EnumeratorDesc" name
  | .propertyCount => countHeading name c.properties.length
  | .functionCount => countHeading name c.methods.length
  | .enumeratorCount => countHeading name c.enumerators.length
  | .getProperty => "inline void* " ++ name ++ "(" ++ getParameters c.qualifiedName ++ ") \x7b"
  | .setProperty => "inline bool " ++ name ++ "(" ++ setParameters c.qualifiedName ++ ") \x7b"
  | .ancestors =>
    "inline const char* const " ++ name ++ "[] = \x7b "
      ++ String.join (r.ancestorNames.map fun base => "\"" ++ base ++ "\", ") ++ "nullptr \x7d;"
  | .isA => "inline bool " ++ name ++ "(const char* typeName) \x7b"

/-- The line that starts the definition of the get accessor that the generated-body macro
declares. -/
def memberGetHeading (c : Container) : String :=
  "inline void* " ++ c.qualifiedName ++ "::ReflectGetProperty(" ++ getParameters c.qualifiedName
    ++ ") \x7b"

/-- The line that starts the definition of its set accessor. -/
def memberSetHeading (c : Container) : String :=
  "inline bool " ++ c.qualifiedName ++ "::ReflectSetProperty(" ++ setParameters c.qualifiedName
    ++ ") \x7b"

/-- The lines that start the definitions of what the generated-body macro declares. -/
def memberHeadings (c : Container) : List String :=
  if c.generatedBodyLine.isSome then [memberGetHeading c, memberSetHeading c] else []

/-- The lines that start definitions in the section of a container, in order. -/
def headings (runtime : String) (r : Resolved) : List String :=
  if r.container.kind = .enum then
    [.enumerators, .enumeratorCount].map (heading runtime r)
  else
    [.properties, .propertyCount, .functions, .functionCount].map (heading runtime r)
      ++ memberHeadings r.container
      ++ [.getProperty, .setProperty, .ancestors, .isA].map (heading runtime r)

/-- The lines of a table and its count. -/
def tableLines (runtime : String) (r : Resolved) (items count : Global) (rows : List String)
    (lastRow : String) : List String :=
  ["", heading runtime r items] ++ rows ++ [lastRow, "\x7d;", heading runtime r count]

/-- The lines of the accessors. -/
def accessorLines (runtime : String) (r : Resolved) : List String :=
  let c := r.container
  let globalGet := heading runtime r .getProperty
  let globalSet := heading runtime r .setProperty
  if c.generatedBodyLine.isSome then
    ["", memberGetHeading c] ++ getBody c ++ ["\x7d", memberSetHeading c] ++ setBody c
      ++ ["\x7d",
        globalGet, "    return " ++ c.qualifiedName ++ "::ReflectGetProperty(self, index);", "\x7d",
        globalSet, "    return " ++ c.qualifiedName ++ "::ReflectSetProperty(self, index, value);",
        "\x7d"]
  else ["", globalGet] ++ getBody c ++ ["\x7d", globalSet] ++ setBody c ++ ["\x7d"]

/-- The lines of the check for ancestors. -/
def ancestryLines (runtime : String) (r : Resolved) : List String :=
  ["", heading runtime r .ancestors, heading runtime r .isA,
    "    if (std::strcmp(typeName, \"" ++ r.container.name ++ "\") == 0) return true;",
    "    for (const char* const* it = " ++ r.container.globalName .ancestors
      ++ "; *it != nullptr; ++it) \x7b",
    "        if (std::strcmp(typeName, *it) == 0) return true;",
    "    \x7d",
    "    return false;",
    "\x7d"]

/-- The lines of the comment above a container's tables. -/
def bannerLines (r : Resolved) : List String :=
  ["", rule, title r.container,
    "// Ancestors: " ++ (if r.ancestors.isEmpty then "(none)"
      else " -> ".intercalate (r.ancestors.map (·.name))), rule]

/-- The lines of a container's section in the inline part. -/
def inlinedLines (runtime : String) (r : Resolved) : List String :=
  let c := r.container
  bannerLines r ++
    if c.kind = .enum then
      tableLines runtime r .enumerators .enumeratorCount
        (c.enumerators.map (enumeratorRow c.qualifiedName)) (row ["nullptr", "0"])
    else
      tableLines runtime r .properties .propertyCount (c.properties.map (propertyRow runtime))
          (row ["nullptr", "nullptr", "nullptr", "nullptr", runtime ++ "::Visibility::Public"])
        ++ tableLines runtime r .functions .functionCount (c.methods.map methodRow)
          (row ["nullptr", "nullptr", "nullptr", "nullptr", "false", "false"])
        ++ accessorLines runtime r ++ ancestryLines runtime r

theorem lines_append (ls ms : List String) : lines (ls ++ ms) = lines ls ++ lines ms := by
  simp [lines, String.join_append]

/-- A table stands under the heading of its items, and above that of their count. -/
theorem table_eq {runtime descriptor plural singular lastRow : String} {r : Resolved}
    (items count : Global) {rows : List String} {n : Nat}
    (hitems : heading runtime r items =
      tableHeading runtime descriptor (r.container.symbol ++ "_" ++ plural))
    (hcount : heading runtime r count =
      countHeading (r.container.symbol ++ "_" ++ (singular ++ "Count")) n)
    (hn : rows.length = n) :
    table runtime r.container.symbol descriptor plural singular rows lastRow =
      lines (tableLines runtime r items count rows lastRow) := by
  have hassign : "Count = " = "Count" ++ " = " := by simp
  unfold table tableLines
  rw [hitems, hcount, hn]
  unfold tableHeading countHeading
  simp only [hassign]
  simp only [String.append_assoc]

theorem accessors_eq (runtime : String) (r : Resolved) :
    accessors r.container = lines (accessorLines runtime r) := by
  have hget : "_GetProperty(" = "_" ++ "GetProperty" ++ "(" := by simp
  have hset : "_SetProperty(" = "_" ++ "SetProperty" ++ "(" := by simp
  unfold accessors accessorLines memberGetHeading memberSetHeading heading Container.globalName
    Global.word
  simp only [hget, hset]
  simp only [String.append_assoc]
  split <;> rfl

theorem ancestry_eq (runtime : String) (r : Resolved) :
    ancestry r = lines (ancestryLines runtime r) := by
  have hancestors : "_Ancestors[] = \x7b " = "_" ++ "Ancestors" ++ "[] = \x7b " := by simp
  have hisA : "_IsA(const char* typeName) \x7b" =
      "_" ++ "IsA" ++ "(const char* typeName) \x7b" := by simp
  have hwalk : "_Ancestors; *it != nullptr; ++it) \x7b" =
      "_" ++ "Ancestors" ++ "; *it != nullptr; ++it) \x7b" := by simp
  unfold ancestry ancestryLines heading Container.globalName Global.word
  simp only [hancestors, hisA, hwalk]
  simp only [String.append_assoc]

/-- The section of a container in the inline part, line by line. -/
theorem generate_inlined (options : GenerationOptions) (r : Resolved) :
    generate options r .inlined = lines (inlinedLines options.runtimeNamespace r) := by
  have hproperties : propertyTable options.runtimeNamespace r.container = _ :=
    table_eq .properties .propertyCount (by rfl) (by rfl) (List.length_map _)
  have hmethods : methodTable options.runtimeNamespace r.container = _ :=
    table_eq .functions .functionCount (by rfl) (by rfl) (List.length_map _)
  have henumerators : enumeratorTable options.runtimeNamespace r.container = _ :=
    table_eq .enumerators .enumeratorCount (by rfl) (by rfl) (List.length_map _)
  have hbanner : banner r = lines (bannerLines r) := rfl
  unfold generate inlinedLines
  dsimp only
  rw [lines_append, hbanner]
  split
  · rw [henumerators]
  · rw [lines_append, lines_append, lines_append, hproperties, hmethods, accessors_eq, ancestry_eq]

/-! ### Lines that start definitions -/

theorem isDefinition_append {s : String} (h : isDefinition s = true) (t : String) :
    isDefinition (s ++ t) = true := by
  unfold isDefinition at h ⊢
  rw [List.isPrefixOf_iff_prefix] at h ⊢
  rw [String.toList_append]
  exact h.trans (List.prefix_append _ _)

/-- A line that starts with another letter starts no definition. -/
theorem isDefinition_append_of_ne {s : String} (h : (s.toList.head?.any (· ≠ 'i')) = true)
    (t : String) : isDefinition (s ++ t) = false := by
  unfold isDefinition
  rw [String.toList_append]
  cases hs : s.toList with
  | nil => simp [hs] at h
  | cons c cs =>
    have hc : c ≠ 'i' := by simpa [hs] using h
    show ('i' == c && _) = false
    rw [beq_false_of_ne hc.symm]
    rfl

theorem isDefinition_tableHeading (runtime descriptor name : String) :
    isDefinition (tableHeading runtime descriptor name) = true := by
  unfold tableHeading
  simp only [String.append_assoc]
  exact isDefinition_append (by decide) _

theorem isDefinition_countHeading (name : String) (rows : Nat) :
    isDefinition (countHeading name rows) = true := by
  unfold countHeading
  simp only [String.append_assoc]
  exact isDefinition_append (by decide) _

theorem isDefinition_heading (runtime : String) (r : Resolved) (g : Global) :
    isDefinition (heading runtime r g) = true := by
  cases g with
  | properties | functions | enumerators => exact isDefinition_tableHeading ..
  | propertyCount | functionCount | enumeratorCount => exact isDefinition_countHeading ..
  | getProperty | setProperty | ancestors | isA =>
    unfold heading
    simp only [String.append_assoc]
    exact isDefinition_append (by decide) _

theorem isDefinition_memberGetHeading (c : Container) :
    isDefinition (memberGetHeading c) = true := by
  unfold memberGetHeading
  simp only [String.append_assoc]
  exact isDefinition_append (by decide) _

theorem isDefinition_memberSetHeading (c : Container) :
    isDefinition (memberSetHeading c) = true := by
  unfold memberSetHeading
  simp only [String.append_assoc]
  exact isDefinition_append (by decide) _

theorem isDefinition_row (fields : List String) : isDefinition (row fields) = false := by
  unfold row
  rw [String.append_assoc]
  exact isDefinition_append_of_ne (by decide) _

/-- A switch defines nothing if its cases do not. -/
theorem filter_switch {cases : List String} {otherwise : String}
    (hcases : ∀ line ∈ cases, isDefinition line = false)
    (hotherwise : isDefinition otherwise = false) :
    (["    switch (index) \x7b"] ++ cases ++ [otherwise, "    \x7d"]).filter isDefinition = [] := by
  have hopen : isDefinition "    switch (index) \x7b" = false := by decide
  have hclose : isDefinition "    \x7d" = false := by decide
  have hnone : cases.filter isDefinition = [] := List.filter_eq_nil_iff.2 (by simpa using hcases)
  simp [List.filter_append, hnone, hotherwise, hopen, hclose]

theorem filter_getBody (c : Container) : (getBody c).filter isDefinition = [] := by
  refine filter_switch ?_ (by decide)
  simp only [List.forall_mem_map]
  intro x _
  unfold getCase
  simp only [String.append_assoc]
  exact isDefinition_append_of_ne (by decide) _

theorem filter_setBody (c : Container) : (setBody c).filter isDefinition = [] := by
  refine filter_switch ?_ (by decide)
  simp only [List.forall_mem_map]
  intro x _
  unfold setCase
  simp only [String.append_assoc]
  exact isDefinition_append_of_ne (by decide) _

section Sections

variable (runtime : String) (r : Resolved)

theorem filter_bannerLines : (bannerLines r).filter isDefinition = [] := by
  have htitle : isDefinition (title r.container) = false := by
    unfold title
    simp only [String.append_assoc]
    exact isDefinition_append_of_ne (by decide) _
  have hancestors : ∀ names, isDefinition ("// Ancestors: " ++ names) = false :=
    isDefinition_append_of_ne (by decide)
  have hrule : isDefinition rule = false ∧ isDefinition "" = false := by
    simp [isDefinition, rule, List.isPrefixOf]
  simp [bannerLines, htitle, hancestors, hrule]

theorem filter_tableLines (items count : Global) {rows : List String} {lastRow : String}
    (hrows : ∀ row ∈ rows, isDefinition row = false) (hlast : isDefinition lastRow = false) :
    (tableLines runtime r items count rows lastRow).filter isDefinition =
      [heading runtime r items, heading runtime r count] := by
  have hlines : isDefinition "" = false ∧ isDefinition "\x7d;" = false := by
    simp [isDefinition, List.isPrefixOf]
  have hrows : rows.filter isDefinition = [] := List.filter_eq_nil_iff.2 (by simpa using hrows)
  simp [tableLines, List.filter_append, isDefinition_heading, hlines, hrows, hlast]

theorem filter_accessorLines : (accessorLines runtime r).filter isDefinition =
    memberHeadings r.container ++ [heading runtime r .getProperty, heading runtime r .setProperty] := by
  have hlines : isDefinition "" = false ∧ isDefinition "\x7d" = false := by
    simp [isDefinition, List.isPrefixOf]
  have hreturn : ∀ name call, isDefinition ("    return " ++ name ++ call) = false := by
    intro name call
    rw [String.append_assoc]
    exact isDefinition_append_of_ne (by decide) _
  unfold accessorLines memberHeadings
  cases hmarked : r.container.generatedBodyLine.isSome with
  | true =>
    simp [hmarked, List.filter_append, filter_getBody, filter_setBody,
      isDefinition_memberGetHeading, isDefinition_memberSetHeading, isDefinition_heading, hlines,
      hreturn]
  | false =>
    simp [hmarked, List.filter_append, filter_getBody, filter_setBody, isDefinition_heading, hlines]

theorem filter_ancestryLines : (ancestryLines runtime r).filter isDefinition =
    [heading runtime r .ancestors, heading runtime r .isA] := by
  have hname : ∀ name call, isDefinition ("    if (std::strcmp(typeName, \"" ++ name ++ call) =
      false := by
    intro name call
    rw [String.append_assoc]
    exact isDefinition_append_of_ne (by decide) _
  have hwalk : ∀ name step, isDefinition ("    for (const char* const* it = " ++ name ++ step) =
      false := by
    intro name step
    rw [String.append_assoc]
    exact isDefinition_append_of_ne (by decide) _
  have hlines : isDefinition "" = false ∧
      isDefinition "        if (std::strcmp(typeName, *it) == 0) return true;" = false ∧
      isDefinition "    \x7d" = false ∧ isDefinition "    return false;" = false ∧
      isDefinition "\x7d" = false := by
    simp [isDefinition, List.isPrefixOf]
  simp [ancestryLines, isDefinition_heading, hname, hwalk, hlines]

/-- The section of a container defines its globals in order, and between them what the
generated-body macro declares. -/
theorem filter_inlinedLines :
    (inlinedLines runtime r).filter isDefinition = headings runtime r := by
  have hrow : ∀ fields, isDefinition (row fields) = false := isDefinition_row
  unfold inlinedLines headings
  dsimp only
  rw [List.filter_append, filter_bannerLines]
  split
  · rw [filter_tableLines runtime r _ _ ?_ (hrow _)]
    · rfl
    · simp [enumeratorRow, hrow]
  · rw [List.filter_append, List.filter_append, List.filter_append,
      filter_tableLines runtime r _ _ ?_ (hrow _), filter_tableLines runtime r _ _ ?_ (hrow _),
      filter_accessorLines, filter_ancestryLines]
    · simp
    · simp [methodRow, hrow]
    · simp [propertyRow, hrow]

end Sections

end Tables

/-! ## Globals of a file -/

/-- Containers with different qualified names have different symbols, if their names and those of
their scopes have no underscores and no colons. -/
theorem nodup_symbols {cs : List Container} (hnames : (cs.map (·.qualifiedName)).Nodup)
    (h : ∀ c ∈ cs, ∀ n ∈ c.names, ':' ∉ n.toList ∧ '_' ∉ n.toList) :
    (cs.map (·.symbol)).Nodup := by
  rw [List.Nodup, List.pairwise_map] at hnames ⊢
  refine hnames.imp_of_mem fun {x y} hx hy hne hsymbol => hne ?_
  have hwords := (Container.symbol_eq_iff (fun n hn => (h x hx n hn).1)
    fun n hn => (h y hy n hn).1).1 hsymbol
  rw [wordsOf_eq_map fun n hn => (h x hx n hn).2, wordsOf_eq_map fun n hn => (h y hy n hn).2]
    at hwords
  have hsame := (List.map_injective_iff.2 fun _ _ => String.toList_inj.1) hwords
  exact congrArg ("::".intercalate ·) hsame

/-- **The globals of a file's inline part have different names just if no two of its containers that
are both enums, or both not, share a symbol.** Qualified names are different for all containers, but
symbols tell no more of them than the words between underscores; so they and the globals are all
different if there is no underscore in the names of containers and scopes. -/
theorem globals_apart (v : Vocabulary) (path fileId source : String) :
    (∀ (options : GenerationOptions) (r : Resolved),
      Tables.generate options r .inlined =
        lines (Tables.inlinedLines options.runtimeNamespace r) ∧
      (Tables.inlinedLines options.runtimeNamespace r).filter Tables.isDefinition =
        Tables.headings options.runtimeNamespace r) ∧
    ((FileModel.ofSource v path fileId source).containers.map (·.qualifiedName)).Nodup ∧
    (∀ x y : Container, (∀ n ∈ x.names ++ y.names, ':' ∉ n.toList) →
      (x.symbol = y.symbol ↔ wordsOf x.names = wordsOf y.names)) ∧
    (((FileModel.ofSource v path fileId source).containers.flatMap Container.globals).Nodup ↔
      (FileModel.ofSource v path fileId source).containers.Pairwise fun x y =>
        x.symbol = y.symbol → ¬(x.kind = .enum ↔ y.kind = .enum)) ∧
    ((∀ c ∈ (FileModel.ofSource v path fileId source).containers, ∀ n ∈ c.names,
        ':' ∉ n.toList ∧ '_' ∉ n.toList) →
      ((FileModel.ofSource v path fileId source).containers.map (·.symbol)).Nodup ∧
        ((FileModel.ofSource v path fileId source).containers.flatMap Container.globals).Nodup) := by
  refine ⟨fun options r => ⟨Tables.generate_inlined options r, Tables.filter_inlinedLines _ r⟩,
    nodup_qualifiedNames v path fileId source, fun x y hcolon => ?_, nodup_globals_iff,
    fun h => ?_⟩
  · rw [List.forall_mem_append] at hcolon
    exact Container.symbol_eq_iff hcolon.1 hcolon.2
  · have hsymbols := nodup_symbols (nodup_qualifiedNames v path fileId source) h
    refine ⟨hsymbols, nodup_globals_iff.2 ?_⟩
    exact (List.pairwise_map.1 hsymbols).imp fun hne hsame => (hne hsame).elim

theorem globals_apart_nested :
    ∃ cs, (FileModel.ofSource {} "a.h" "a.h"
        "namespace a { STRUCT() struct B { GENERATED_BODY() }; } ENUM() enum E { X };").containers
          = cs ∧
      cs.map (·.symbol) = ["a_B", "E"] ∧ (cs.flatMap Container.globals).Nodup := by
  obtain ⟨-, -, -, -, hapart⟩ := globals_apart {} "a.h" "a.h"
    "namespace a { STRUCT() struct B { GENERATED_BODY() }; } ENUM() enum E { X };"
  exact ⟨_, rfl, by decide +kernel, (hapart (by decide +kernel)).2⟩

/-- A struct in a namespace can share its symbol with one whose name has an underscore. -/
theorem globals_shared :
    ¬∀ v path fileId source,
      ((FileModel.ofSource v path fileId source).containers.map (·.symbol)).Nodup ∧
        ((FileModel.ofSource v path fileId source).containers.flatMap Container.globals).Nodup := by
  intro h
  have hapart := (h {} "a.h" "a.h" ("namespace a { STRUCT() struct b { GENERATED_BODY() }; } " ++
    "STRUCT() struct a_b { GENERATED_BODY() };")).2
  revert hapart
  decide +kernel

end HeaderReflection
