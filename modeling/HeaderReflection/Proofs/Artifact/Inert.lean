import HeaderReflection.Proofs.Artifact.Globals
import HeaderReflection.Proofs.Project.Identities
import HeaderReflection.Proofs.Token.Paragraphs

/-!
# Header parts have no code

The header part of an artifact is made of blank lines, comments and directives. The macro for a
generated-body marker is one directive: all of its lines but the last go on with the next. So a
header part has no token, and nothing is found in one that is scanned as an input file.

* `Artifact.header_eq`: the paragraphs of a header part.
* `Artifact.headings_headerParagraphs`: the first lines of its directives, which tell no name.
* `Artifact.isWhole_of_mem_headerParagraphs`: no paragraph is broken by what is filled in.
* `header_inert`: a header part has no token.
* `header_broken`: a macro prefix with a line end breaks a directive.
-/

namespace HeaderReflection

namespace Artifact

/-! ## The paragraphs of a header part -/

/-- The first lines of the directives above the macros for markers. -/
def openingHeadings (options : GenerationOptions) (fileId : String) : List String :=
  ["pragma once", "include <cstddef>", "include \"" ++ options.runtimeInclude ++ "\"",
    "undef " ++ options.macroPrefix ++ "_CURRENT_FILE_ID",
    "define " ++ options.macroPrefix ++ "_CURRENT_FILE_ID " ++ fileSymbol fileId]

/-- The paragraphs above the macros for markers. -/
def openingParagraphs (options : GenerationOptions) (fileId : String) : List Paragraph :=
  [.comment (" Generated by reflectc from " ++ fileId ++ ". Do not edit."),
    .comment " Include before the annotated types.", .directive "pragma once" [], .blank,
    .directive "include <cstddef>" [],
    .directive ("include \"" ++ options.runtimeInclude ++ "\"") [], .blank,
    .directive ("undef " ++ options.macroPrefix ++ "_CURRENT_FILE_ID") [],
    .directive ("define " ++ options.macroPrefix ++ "_CURRENT_FILE_ID " ++ fileSymbol fileId) []]

/-- The paragraphs of a container: its macro under its title, if it has a marker. -/
def macroParagraphs (options : GenerationOptions) (c : Container) : List Paragraph :=
  (c.bodyMacroName? options).elim [] fun name =>
    [.blank, .comment (" " ++ c.kind.word ++ " " ++ c.qualifiedName),
      .directive ("define " ++ name) (Tables.expansion c)]

/-- The paragraphs of a header part. -/
def headerParagraphs (backends : List Backend) (options : GenerationOptions) (fileId : String)
    (rs : List Resolved) : List Paragraph :=
  openingParagraphs options fileId ++
    if .tables ∈ backends then rs.flatMap fun r => macroParagraphs options r.container else []

/-- Lines that go on are one line with line ends in it. -/
theorem lines_continued (l : String) (ls : List String) :
    lines (Tables.continued (l :: ls)) = lines [" \\\n".intercalate (l :: ls)] := by
  induction ls generalizing l with
  | nil => rw [String.intercalate_singleton]; rfl
  | cons m ls ih =>
    have hstep : Tables.continued (l :: m :: ls) =
        (l ++ " \\") :: Tables.continued (m :: ls) := rfl
    have hends : " \\\n" = " \\" ++ "\n" := by simp
    rw [hstep, lines_cons, ih, lines_cons, lines_cons, String.intercalate_cons_cons]
    nth_rewrite 2 [hends]
    simp only [String.append_assoc]

theorem headerOpening_eq (options : GenerationOptions) (fileId : String) :
    headerOpening options fileId =
      lines ((openingParagraphs options fileId).map Paragraph.text) := by
  rw [← String.toList_inj]
  simp [headerOpening, openingParagraphs, Paragraph.text, generatedMark, lines]

theorem bodyMacro_eq_lines (options : GenerationOptions) (c : Container) :
    Tables.bodyMacro options c = lines ((macroParagraphs options c).map Paragraph.text) := by
  rw [Tables.bodyMacro_eq, macroParagraphs, Container.bodyMacroName?]
  cases c.generatedBodyLine with
  | none => rfl
  | some line =>
    have htitle : Tables.title c =
        (Paragraph.comment (" " ++ c.kind.word ++ " " ++ c.qualifiedName)).text := by
      rw [← String.toList_inj]
      simp [Tables.title, Paragraph.text]
    have hdefine : ∀ name : String, "#define " ++ name = "#" ++ ("define " ++ name) := by
      intro name
      rw [← String.append_assoc]
      simp
    simp only [Option.elim_some, Option.map_some, List.map_cons, List.map_nil]
    rw [lines_cons, lines_cons, lines_continued, htitle, hdefine, ← Paragraph.text_directive,
      ← lines_cons, ← lines_cons]
    rfl

theorem sections_header (backends : List Backend) (options : GenerationOptions) (r : Resolved) :
    sections backends options .header r =
      if .tables ∈ backends then Tables.bodyMacro options r.container else "" := by
  have hregistration : sectionOf options r .header .registration = "" := rfl
  have htables : sectionOf options r .header .tables = Tables.bodyMacro options r.container := rfl
  unfold sections ordered
  by_cases ht : .tables ∈ backends <;> by_cases hr : .registration ∈ backends <;>
    simp [ht, hr, hregistration, htables, String.join_cons]

/-- The header part is its paragraphs, each with its line end. -/
theorem header_eq (backends : List Backend) (options : GenerationOptions) (fileId : String)
    (rs : List Resolved) : (generate backends options fileId rs).header =
      lines ((headerParagraphs backends options fileId rs).map Paragraph.text) := by
  have hsections : String.join (rs.map (sections backends options .header)) =
      lines ((if .tables ∈ backends then rs.flatMap fun r => macroParagraphs options r.container
        else []).map Paragraph.text) := by
    induction rs with
    | nil => simp [lines]
    | cons r rs ih =>
      rw [List.map_cons, String.join_cons, ih, sections_header]
      split
      · rw [List.flatMap_cons, List.map_append, Tables.lines_append, bodyMacro_eq_lines]
      · simp [lines]
  rw [headerParagraphs, List.map_append, Tables.lines_append, ← headerOpening_eq, ← hsections]
  rfl

/-- What stands outside comments and the bodies of macros: directives of fixed lines, and the names
of the macros. -/
theorem headings_headerParagraphs (backends : List Backend) (options : GenerationOptions)
    (fileId : String) (rs : List Resolved) :
    (headerParagraphs backends options fileId rs).filterMap Paragraph.heading? =
      openingHeadings options fileId ++
        if .tables ∈ backends then
          (rs.filterMap (·.container.bodyMacroName? options)).map ("define " ++ ·)
        else [] := by
  have hheading : ∀ c, (macroParagraphs options c).filterMap Paragraph.heading? =
      ((c.bodyMacroName? options).map ("define " ++ ·)).toList := by
    intro c
    rw [macroParagraphs]
    cases c.bodyMacroName? options <;> rfl
  rw [headerParagraphs, List.filterMap_append]
  congr 1
  split
  · rw [List.filterMap_flatMap, List.map_filterMap, List.filterMap_eq_flatMap_toList]
    simp only [hheading]
  · rfl

/-! ## Line ends -/

theorem plain_fileSymbol (s : String) :
    ∀ c ∈ (fileSymbol s).toList, c ≠ '\n' ∧ c ≠ '\\' ∧ c ≠ '\x0d' := by
  intro c hc
  have hword : Text.isAsciiAlphanumeric c = true ∨ c = '_' := by
    rw [fileSymbol, String.toList_ofList] at hc
    obtain ⟨d, -, rfl⟩ := List.mem_map.1 hc
    split
    · exact .inl ‹_›
    · exact .inr rfl
  rcases hword with hword | rfl
  · refine ⟨?_, ?_, ?_⟩ <;> · rintro rfl; cases hword
  · decide

section

variable {options : GenerationOptions} {fileId : String}

theorem isWhole_of_mem_openingParagraphs (hstart : '\n' ∉ options.macroPrefix.toList)
    (hinclude : '\n' ∉ options.runtimeInclude.toList) (hfile : '\n' ∉ fileId.toList) :
    ∀ p ∈ openingParagraphs options fileId, p.IsWhole := by
  have hsymbol : '\n' ∉ (fileSymbol fileId).toList := fun h => (plain_fileSymbol _ _ h).1 rfl
  simp only [openingParagraphs, List.forall_mem_cons]
  refine ⟨?_, ?_, ?_, trivial, ?_, ?_, trivial, ?_, ?_, List.forall_mem_nil _⟩
  · simp [Paragraph.IsWhole, hfile]
  · simp [Paragraph.IsWhole]
  · exact Paragraph.isWhole_directive "pragma " "once"
      (by simp) (by simp) (by simp) (by simp)
  · exact Paragraph.isWhole_directive "include " "<cstddef>"
      (by simp) (by simp) (by simp) (by simp)
  · exact Paragraph.isWhole_directive _ _ (by simp [hinclude]) rfl (by simp) (by simp)
  · exact Paragraph.isWhole_directive _ _ (by simp [hstart]) rfl (by simp) (by simp)
  · -- The symbol of a file can be empty, and the line then ends in the blank before it.
    refine Paragraph.isWhole_directive ("define " ++ options.macroPrefix)
      ("_CURRENT_FILE_ID " ++ fileSymbol fileId) (by simp [hstart, hsymbol]) ?_ (by simp) ?_
    · simp [String.append_assoc]
    · rw [String.toList_append, List.forall_mem_append]
      exact ⟨by simp, fun c hc => (plain_fileSymbol fileId c hc).2⟩

theorem isWhole_of_mem_macroParagraphs (hstart : '\n' ∉ options.macroPrefix.toList)
    {c : Container} (hnames : ∀ n ∈ c.names, '\n' ∉ n.toList) :
    ∀ p ∈ macroParagraphs options c, p.IsWhole := by
  have hword : '\n' ∉ c.kind.word.toList ∧ '\n' ∉ c.kind.defaultVisibility.word.toList := by
    cases c.kind <;> decide
  have hname : '\n' ∉ c.name.toList := hnames _ (by simp [Container.names])
  have hqualified : '\n' ∉ c.qualifiedName.toList := fun h =>
    forall_mem_intercalate (P := (· ≠ '\n')) (by decide)
      (fun n hn d hd => by rintro rfl; exact hnames n hn hd) _ h rfl
  rw [macroParagraphs, Container.bodyMacroName?]
  cases c.generatedBodyLine with
  | none => simp
  | some line =>
    have hsymbol : '\n' ∉ (fileSymbol c.fileId).toList := fun h => (plain_fileSymbol _ _ h).1 rfl
    have hline : '\n' ∉ (toString line).toList := fun h =>
      absurd (Tables.isDigit_of_mem_toString h) (by decide)
    have hdefined : '\n' ∉ (Tables.bodyMacroName options c.fileId line).toList := by
      simp only [Tables.bodyMacroName, String.toList_append, List.mem_append, not_or]
      exact ⟨⟨⟨⟨hstart, by simp⟩, hsymbol⟩, by simp⟩, hline⟩
    simp only [Option.map_some, Option.elim_some, List.forall_mem_cons]
    refine ⟨trivial, ?_, ?_, List.forall_mem_nil _⟩
    · simp [Paragraph.IsWhole, hword, hqualified]
    · refine Paragraph.isWhole_directive _ _ ?_ rfl (by simp) (by simp)
      simp [Tables.expansion, Tables.getParameters, Tables.setParameters, hdefined, hname, hword]

theorem isWhole_of_mem_headerParagraphs (hstart : '\n' ∉ options.macroPrefix.toList)
    (hinclude : '\n' ∉ options.runtimeInclude.toList) (hfile : '\n' ∉ fileId.toList)
    {rs : List Resolved} (hnames : ∀ r ∈ rs, ∀ n ∈ r.container.names, '\n' ∉ n.toList)
    (backends : List Backend) :
    ∀ p ∈ headerParagraphs backends options fileId rs, p.IsWhole := by
  intro p hp
  rcases List.mem_append.1 hp with hp | hp
  · exact isWhole_of_mem_openingParagraphs hstart hinclude hfile p hp
  · split at hp
    · obtain ⟨r, hr, hp⟩ := List.mem_flatMap.1 hp
      exact isWhole_of_mem_macroParagraphs hstart (hnames r hr) p hp
    · cases hp

end

end Artifact

/-! ## No tokens -/

/-- **A header part has no token.** It is made of blank lines, comments and directives, each of
which is one piece of the gap that the part is; what stands outside comments and the bodies of
macros depends on no names. Each macro for a marker is one directive, from its name to the access
that the body starts with. So nothing is found in a header part that is scanned as an input file,
whatever the markers are. Line ends in what is filled in would break this. -/
theorem header_inert (backends : List Backend) (options : GenerationOptions) (fileId : String)
    (rs : List Resolved)
    (hstart : '\n' ∉ options.macroPrefix.toList)
    (hinclude : '\n' ∉ options.runtimeInclude.toList) (hfile : '\n' ∉ fileId.toList)
    (hnames : ∀ r ∈ rs, ∀ n ∈ r.container.names, '\n' ∉ n.toList)
    {header : String} (hheader : header = (Artifact.generate backends options fileId rs).header) :
    header =
      lines ((Artifact.headerParagraphs backends options fileId rs).map Paragraph.text) ∧
    Token.gapPieces true header.toList =
      (Artifact.headerParagraphs backends options fileId rs).flatMap Paragraph.pieces ∧
    (Artifact.headerParagraphs backends options fileId rs).filterMap Paragraph.heading? =
      Artifact.openingHeadings options fileId ++
        (if .tables ∈ backends then
          (rs.filterMap (·.container.bodyMacroName? options)).map ("define " ++ ·)
        else []) ∧
    (.tables ∈ backends → ∀ r ∈ rs, ∀ name,
      r.container.bodyMacroName? options = some name →
        .directive ("define " ++ name) (Tables.expansion r.container) ∈
            Artifact.headerParagraphs backends options fileId rs ∧
          (Tables.expansion r.container).getLast? =
            some (r.container.kind.defaultVisibility.word ++ ":")) ∧
    Token.lex header = [] ∧
    (∀ v, Markup.scan v header = []) ∧
    ∀ v path id, FileModel.ofSource v path id header = ⟨path, id, [], [], []⟩ := by
  have hwhole := Artifact.isWhole_of_mem_headerParagraphs hstart hinclude hfile hnames backends
  have hlines := hheader.trans (Artifact.header_eq backends options fileId rs)
  have hlex : Token.lex header = [] := by
    rw [hlines]
    exact Token.lex_lines hwhole
  have hscan : ∀ v, Markup.scan v header = [] := fun v => by
    rw [Markup.scan, hlex, Markup.events]
  refine ⟨hlines, ?_, Artifact.headings_headerParagraphs .., ?_, hlex, hscan, ?_⟩
  · rw [hlines]
    exact Token.gapPieces_lines hwhole
  · intro htables r hr name hname
    refine ⟨?_, rfl⟩
    rw [Artifact.headerParagraphs, if_pos htables]
    refine List.mem_append_right _ (List.mem_flatMap.2 ⟨r, hr, ?_⟩)
    rw [Artifact.macroParagraphs, hname]
    simp
  · intro v path id
    rw [FileModel.ofSource, hscan]
    rfl

/-- A struct with a marker, in a namespace. -/
def markedStruct : Container where
  name := "S"
  kind := .struct
  scope := ["n"]
  fileId := "a.h"
  position := .start
  generatedBodyLine := some 3

theorem header_inert_marked :
    .directive ("define " ++ "REFLECT_GENERATED_BODY_a_h_3") (Tables.expansion markedStruct) ∈
        Artifact.headerParagraphs [.tables, .registration] {} "a.h" [⟨markedStruct, []⟩] ∧
      Token.lex
        (Artifact.generate [.tables, .registration] {} "a.h" [⟨markedStruct, []⟩]).header = [] := by
  obtain ⟨-, -, -, hdefined, hlex, -⟩ := header_inert [.tables, .registration] {} "a.h"
    [⟨markedStruct, []⟩] (by decide) (by decide) (by decide) (by decide) rfl
  exact ⟨(hdefined (by decide) _ List.mem_cons_self _ (by decide +kernel)).1, hlex⟩

/-- Behind a line end in the macro prefix stands a token. -/
theorem header_broken :
    ¬∀ (backends : List Backend) (options : GenerationOptions) (fileId : String)
      (rs : List Resolved), '\n' ∉ options.runtimeInclude.toList → '\n' ∉ fileId.toList →
        (∀ r ∈ rs, ∀ n ∈ r.container.names, IsIdentifier n ∧ '\n' ∉ n.toList) →
          Token.lex (Artifact.generate backends options fileId rs).header = [] := by
  intro h
  have hlex := h [.tables, .registration] { macroPrefix := "A\nB" } "a.h" [] (by decide) (by decide)
    (by simp)
  revert hlex
  decide +kernel

end HeaderReflection
