import HeaderReflection.Artifact.Basic
import HeaderReflection.Proofs.Artifact.Indices

/-!
# Sections of a file

The inline part of an artifact, line by line. The tables of a container stand under a title, which
is a comment with the kind and the qualified name of the container.

* `Artifact.generate_inlined`: the lines of an inline part.
* `Artifact.filter_inlinedLines`: the titles among them.
-/

namespace HeaderReflection

/-! ## Titles -/

/-- What the titles of tables start with. -/
def titleStarts : List String := ["// class ", "// struct ", "// enum "]

/-- The line is a title of tables. -/
def isTitle (line : String) : Bool := titleStarts.any fun start => startsWith start line

/-- A line that starts in another way is none. -/
theorem isTitle_of_startsWith {front line : String} (h : startsWith front line = true)
    (hfront : ∀ start ∈ titleStarts,
      startsWith start front = false ∧ startsWith front start = false) :
    isTitle line = false := by
  refine List.any_eq_false.2 fun start hstart => ?_
  obtain ⟨hlong, hshort⟩ := hfront start hstart
  simp [startsWith_eq_false h hlong hshort]

theorem isTitle_of_startsWith_blank {line : String} (h : startsWith " " line = true) :
    isTitle line = false :=
  isTitle_of_startsWith h (by decide)

theorem isTitle_of_isDefinition {line : String} (h : Tables.isDefinition line = true) :
    isTitle line = false := by
  have hstart : startsWith "inline " line = true := h
  exact isTitle_of_startsWith hstart (by decide)

namespace Tables

variable (runtime : String) (r : Resolved)

theorem isTitle_title (c : Container) : isTitle (title c) = true := by
  have hstart : ∀ kind : ContainerKind, "// " ++ kind.word ++ " " ∈ titleStarts := by
    intro kind
    cases kind <;> decide
  exact List.any_eq_true.2 ⟨_, hstart c.kind, startsWith_append ..⟩

theorem filter_isTitle_bannerLines : (bannerLines r).filter isTitle = [title r.container] := by
  have hancestors : ∀ names, isTitle ("// Ancestors: " ++ names) = false := fun names =>
    isTitle_of_startsWith (startsWith_append ..) (by decide)
  have hrule : isTitle rule = false ∧ isTitle "" = false := by decide
  simp [bannerLines, isTitle_title, hancestors, hrule]

theorem isTitle_heading (g : Global) : isTitle (heading runtime r g) = false :=
  isTitle_of_isDefinition (isDefinition_heading ..)

theorem filter_isTitle_eq_nil {ls : List String} (h : ∀ line ∈ ls, startsWith " " line = true) :
    ls.filter isTitle = [] :=
  List.filter_eq_nil_iff.2 fun line hline => by simp [isTitle_of_startsWith_blank (h line hline)]

theorem filter_isTitle_tableLines (items count : Global) {rows : List String} {lastRow : String}
    (hrows : ∀ line ∈ rows, startsWith " " line = true) (hlast : startsWith " " lastRow = true) :
    (tableLines runtime r items count rows lastRow).filter isTitle = [] := by
  have hlines : isTitle "" = false ∧ isTitle "\x7d;" = false := by decide
  simp [tableLines, hlines, isTitle_heading, filter_isTitle_eq_nil hrows,
    isTitle_of_startsWith_blank hlast]

theorem filter_isTitle_forwardLines : (forwardLines runtime r).filter isTitle = [] := by
  have hclose : isTitle "\x7d" = false := by decide
  have hreturn : ∀ name call, isTitle ("    return " ++ name ++ call) = false := by
    intro name call
    rw [String.append_assoc]
    exact isTitle_of_startsWith (startsWith_append ..) (by decide)
  unfold forwardLines
  split
  · simp [isTitle_heading, hclose, hreturn]
  · rfl

theorem filter_isTitle_accessorLines : (accessorLines runtime r).filter isTitle = [] := by
  have hlines : isTitle "" = false ∧ isTitle "\x7d" = false := by decide
  have hget := isTitle_of_isDefinition (isDefinition_getHeading runtime r)
  have hset := isTitle_of_isDefinition (isDefinition_setHeading runtime r)
  rw [accessorLines_eq]
  simp [hlines, hget, hset, filter_isTitle_forwardLines,
    filter_isTitle_eq_nil fun _ => startsWith_of_mem_getBody,
    filter_isTitle_eq_nil fun _ => startsWith_of_mem_setBody]

theorem filter_isTitle_ancestryLines : (ancestryLines runtime r).filter isTitle = [] := by
  have hfront : ∀ front ∈ ["    if (std::strcmp(typeName, \"",
      "    for (const char* const* it = "], ∀ start ∈ titleStarts,
        startsWith start front = false ∧ startsWith front start = false := by decide
  have hname : ∀ name call, isTitle ("    if (std::strcmp(typeName, \"" ++ name ++ call) =
      false := by
    intro name call
    rw [String.append_assoc]
    exact isTitle_of_startsWith (startsWith_append ..) (hfront _ (by simp))
  have hwalk : ∀ name step, isTitle ("    for (const char* const* it = " ++ name ++ step) =
      false := by
    intro name step
    rw [String.append_assoc]
    exact isTitle_of_startsWith (startsWith_append ..) (hfront _ (by simp))
  have hlines : ∀ line ∈ ["", "        if (std::strcmp(typeName, *it) == 0) return true;",
      "    \x7d", "    return false;", "\x7d"], isTitle line = false := by decide
  simp only [List.forall_mem_cons] at hlines
  simp [ancestryLines, isTitle_heading, hname, hwalk, hlines]

/-- The section of a container has one title, its own. -/
theorem filter_isTitle_inlinedLines :
    (inlinedLines runtime r).filter isTitle = [title r.container] := by
  have hrow : ∀ fields, startsWith " " (row fields) = true := startsWith_row
  unfold inlinedLines
  dsimp only
  rw [List.filter_append, filter_isTitle_bannerLines]
  split
  · rw [filter_isTitle_tableLines runtime r _ _ (by simp [enumeratorRow, hrow]) (hrow _)]
    rfl
  · rw [List.filter_append, List.filter_append, List.filter_append,
      filter_isTitle_tableLines runtime r _ _ (by simp [propertyRow, hrow]) (hrow _),
      filter_isTitle_tableLines runtime r _ _ (by simp [methodRow, hrow]) (hrow _),
      filter_isTitle_accessorLines, filter_isTitle_ancestryLines]
    rfl

end Tables

/-! ## Registration blocks -/

namespace Registration

/-- A line that starts with an identifier is no title. -/
theorem isTitle_append_of_isAsciiIdentifier {word : String}
    (h : Text.isAsciiIdentifier word = true) (rest : String) : isTitle (word ++ rest) = false := by
  unfold Text.isAsciiIdentifier at h
  split at h
  · cases h
  · rename_i c cs hword
    have hslash : ('/' == c) = false := by
      refine beq_false_of_ne fun he => ?_
      subst he
      simp [Text.isAsciiLetter] at h
    simp [isTitle, titleStarts, startsWith, hword, List.isPrefixOf, hslash]

theorem filter_isTitle_inlinedLines {options : GenerationOptions}
    (h : Text.isAsciiIdentifier options.macroPrefix = true) (r : Resolved) :
    (inlinedLines options r).filter isTitle = [] := by
  have hempty : isTitle "" = false := by decide
  have hinvoke : ∀ name arguments, isTitle (invoke options name arguments) = false := by
    intro name arguments
    unfold invoke
    simp only [String.append_assoc]
    exact isTitle_append_of_isAsciiIdentifier h _
  have hentry : ∀ name arguments, isTitle (entry options name arguments) = false :=
    fun name arguments =>
      isTitle_of_startsWith (startsWith_append "    " (invoke options name arguments)) (by decide)
  unfold inlinedLines
  split
  · rw [blockLines_eq]
    simp [List.filter_append, List.filter_map, Function.comp_def, hempty, hinvoke, hentry]
  · rfl

end Registration

/-! ## Inline parts -/

namespace Artifact

/-- The lines above the sections of the inline part. -/
def openingLines (options : GenerationOptions) (fileId : String) : List String :=
  [generatedMark ++ " from " ++ fileId ++ ". Do not edit.",
    "// Include at global scope after the annotated types.", "#pragma once", "",
    "#include <cstddef>", "#include <cstring>", "#include \"" ++ options.runtimeInclude ++ "\""]

/-- The lines of all backends for a container. -/
def sectionLines (backends : List Backend) (options : GenerationOptions) (r : Resolved) :
    List String :=
  (if .tables ∈ backends then Tables.inlinedLines options.runtimeNamespace r else [])
    ++ if .registration ∈ backends then Registration.inlinedLines options r else []

/-- The lines of the inline part of a file with its containers. -/
def inlinedLines (backends : List Backend) (options : GenerationOptions) (fileId : String)
    (rs : List Resolved) : List String :=
  openingLines options fileId ++ rs.flatMap (sectionLines backends options)

theorem sections_inlined (backends : List Backend) (options : GenerationOptions) (r : Resolved) :
    sections backends options .inlined r = lines (sectionLines backends options r) := by
  unfold sections ordered sectionLines
  rw [Tables.lines_append]
  by_cases ht : .tables ∈ backends <;> by_cases hr : .registration ∈ backends <;>
    simp [ht, hr, sectionOf, Tables.generate_inlined, Registration.generate_inlined, lines]

theorem generate_inlined (backends : List Backend) (options : GenerationOptions) (fileId : String)
    (rs : List Resolved) :
    (generate backends options fileId rs).inlined =
      lines (inlinedLines backends options fileId rs) := by
  have hsections : String.join (rs.map (sections backends options .inlined)) =
      lines (rs.flatMap (sectionLines backends options)) := by
    induction rs with
    | nil => rfl
    | cons r rs ih =>
      rw [List.map_cons, String.join_cons, ih, List.flatMap_cons, Tables.lines_append,
        sections_inlined]
  rw [inlinedLines, Tables.lines_append, ← hsections]
  rfl

/-- The inline part has the titles of its containers in their order, and no others. -/
theorem filter_isTitle_inlinedLines {backends : List Backend} (htables : .tables ∈ backends)
    {options : GenerationOptions} (h : Text.isAsciiIdentifier options.macroPrefix = true)
    (fileId : String) (rs : List Resolved) :
    (inlinedLines backends options fileId rs).filter isTitle =
      rs.map fun r => "// " ++ r.container.kind.word ++ " " ++ r.container.qualifiedName := by
  have hopening : (openingLines options fileId).filter isTitle = [] := by
    have hmark : ∀ rest, isTitle (generatedMark ++ rest) = false := fun rest =>
      isTitle_of_startsWith (startsWith_append ..) (by decide)
    have hinclude : ∀ rest, isTitle ("#include \"" ++ rest) = false := fun rest =>
      isTitle_of_startsWith (startsWith_append ..) (by decide)
    have hlines : ∀ line ∈ ["// Include at global scope after the annotated types.",
        "#pragma once", "", "#include <cstddef>", "#include <cstring>"],
        isTitle line = false := by decide
    simp only [List.forall_mem_cons] at hlines
    simp [openingLines, String.append_assoc, hmark, hinclude, hlines]
  have hsection : ∀ r, (sectionLines backends options r).filter isTitle =
      [Tables.title r.container] := by
    intro r
    rw [sectionLines, if_pos htables, List.filter_append, Tables.filter_isTitle_inlinedLines]
    split
    · rw [Registration.filter_isTitle_inlinedLines h]
      rfl
    · rfl
  rw [inlinedLines, List.filter_append, hopening, List.filter_flatMap, List.nil_append,
    List.map_eq_flatMap]
  exact List.flatMap_congr fun r _ => hsection r

end Artifact

end HeaderReflection
