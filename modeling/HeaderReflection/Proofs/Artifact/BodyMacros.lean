import Mathlib.Data.List.Forall2
import HeaderReflection.Artifact.Basic
import HeaderReflection.Proofs.Container.Symbols
import HeaderReflection.Proofs.Project.Distinct
import HeaderReflection.Proofs.Scope.Bodies

/-!
# Generated-body macros

Each container with a generated-body marker has a macro for it, whose name is made of its file's
name and the line of the marker. All that is no letter or digit becomes an underscore in it, and two
markers of a file can stand on one line, so two containers can share the name.

* `bodyMacro_eq`: the lines of the macro's definition.
* `bodyMacroName_eq_iff`: when two macros have the same name.
* `nodup_generatedBodyLines`: markers on lines of their own are of different containers.
* `bodyMacros_apart`: what keeps all macros of a run apart.
* `bodyMacros_shared`: two headers that share a macro.
-/

namespace HeaderReflection

open Text (isAsciiAlphanumeric)

/-! ## The definition of a macro -/

namespace Tables

/-- The name of the macro for a marker on a line of a file. -/
def bodyMacroName (options : GenerationOptions) (fileId : String) (line : Nat) : String :=
  options.macroPrefix ++ "_GENERATED_BODY_" ++ fileSymbol fileId ++ "_" ++ toString line

/-- What a generated-body marker stands for, line by line. -/
def expansion (c : Container) : List String :=
  ["public:",
    "    static const char* StaticTypeName() \x7b return \"" ++ c.name ++ "\"; \x7d",
    "    static inline void* ReflectGetProperty(" ++ getParameters c.name ++ ");",
    "    static inline bool ReflectSetProperty(" ++ setParameters c.name ++ ");",
    c.kind.defaultVisibility.word ++ ":"]

/-- Lines of which each continues the one before it. -/
def continued : List String → List String
  | [] => []
  | [l] => [l]
  | l :: ls => (l ++ " \\") :: continued ls

/-- The macro's definition under its title, if there is a marker. -/
theorem bodyMacro_eq (options : GenerationOptions) (c : Container) :
    bodyMacro options c = c.generatedBodyLine.elim "" fun line =>
      lines ("" :: title c ::
        continued (("#define " ++ bodyMacroName options c.fileId line) :: expansion c)) := by
  unfold bodyMacro
  cases c.generatedBodyLine with
  | none => rfl
  | some line => simp [continued, expansion, bodyMacroName, String.append_assoc]

end Tables

/-! ## Names -/

/-- Two names have the same length and, in the same places, the same letters and digits of ASCII. -/
def SameLetters (s t : String) : Prop :=
  List.Forall₂ (fun c d =>
    c = d ∨ isAsciiAlphanumeric c = false ∧ isAsciiAlphanumeric d = false) s.toList t.toList

theorem fileSymbol_eq_iff {s t : String} : fileSymbol s = fileSymbol t ↔ SameLetters s t := by
  have hchar : ∀ c d : Char, (if isAsciiAlphanumeric c then c else '_') =
      (if isAsciiAlphanumeric d then d else '_') ↔
        c = d ∨ isAsciiAlphanumeric c = false ∧ isAsciiAlphanumeric d = false := by
    have hmark : ∀ c, isAsciiAlphanumeric c = true → c ≠ '_' := by
      rintro _ hc rfl
      exact absurd hc (by decide)
    intro c d
    cases hc : isAsciiAlphanumeric c <;> cases hd : isAsciiAlphanumeric d
    · simp
    · simpa using ⟨fun h => (hmark d hd h.symm).elim, fun h => absurd hd (by simp [← h, hc])⟩
    · simpa using ⟨fun h => (hmark c hc h).elim, fun h => absurd hd (by simp [← h, hc])⟩
    · simp
  unfold fileSymbol SameLetters
  rw [String.ofList_inj, ← List.forall₂_eq_eq_eq, List.forall₂_map_left_iff,
    List.forall₂_map_right_iff]
  simp only [hchar]

namespace Tables

theorem eq_of_toString_eq {m n : Nat} (h : toString m = toString n) : m = n := by
  rw [Nat.toString_eq_repr, Nat.toString_eq_repr, ← String.toList_inj, Nat.toList_repr,
    Nat.toList_repr] at h
  have hread := congrArg (Nat.ofDigitChars 10 · 0) h
  simpa using hread

theorem isDigit_of_mem_toString {n : Nat} {c : Char} (h : c ∈ (toString n).toList) :
    c.isDigit = true := by
  rw [Nat.toString_eq_repr, Nat.toList_repr] at h
  exact Nat.isDigit_of_mem_toDigits (by decide) (by decide) h

theorem underscore_notMem_toString (n : Nat) : '_' ∉ (toString n).toList := fun h =>
  absurd (isDigit_of_mem_toString h) (by decide)

/-- Two macros have one name if their markers stand on lines of one number, in files whose names
have the same letters and digits. -/
theorem bodyMacroName_eq_iff {options : GenerationOptions} {fileId fileId' : String}
    {line line' : Nat} :
    bodyMacroName options fileId line = bodyMacroName options fileId' line' ↔
      SameLetters fileId fileId' ∧ line = line' := by
  rw [← fileSymbol_eq_iff]
  refine ⟨fun h => ?_, fun ⟨hfile, hline⟩ => by rw [bodyMacroName, hfile, hline]; rfl⟩
  obtain ⟨hfront, hline⟩ := underscore_append_inj (underscore_notMem_toString line)
    (underscore_notMem_toString line') h
  exact ⟨(String.append_right_inj _).1 hfront, eq_of_toString_eq hline⟩

end Tables

/-! ## Lines of markers -/

/-- The line of a generated-body marker. -/
def Event.bodyLine? : Event → Option Nat
  | .generatedBody position _ => some position.line
  | _ => none

/-- The lines of the generated-body markers, in order. -/
def bodyLines (es : List (Except ScanFault Event)) : List Nat :=
  es.filterMap fun e => e.toOption.bind Event.bodyLine?

/-- The markers in bodies are some of those in the file. -/
theorem sublist_bodyLines (s : Scopes) (es : List (Except ScanFault Event)) :
    ((s.bodies es).filterMap (·.2.item.bodyLine?)).Sublist (bodyLines es) := by
  induction es generalizing s with
  | nil => exact List.nil_sublist _
  | cons e es ih =>
    have hcons : bodyLines (e :: es) = bodyLines [e] ++ bodyLines es :=
      List.filterMap_append (l := [e])
    have hfirst : ((s.items e).filterMap (·.2.item.bodyLine?)).Sublist (bodyLines [e]) := by
      unfold Scopes.items
      split
      · rename_i f _ i _ hi
        rw [← Item.ofEvent?_eq_some_iff.1 hi]
        split
        · cases i <;> exact List.Sublist.refl _
        · exact List.nil_sublist _
      · exact List.nil_sublist _
    rw [Scopes.bodies, List.filterMap_append, hcons]
    exact hfirst.append (ih (s.take e))

/-- Containers of a file have different lines if no line of the file has two markers. -/
theorem nodup_generatedBodyLines {v : Vocabulary} {source : String} (path fileId : String)
    (h : (bodyLines (Markup.scan v source)).Nodup) :
    ((FileModel.ofSource v path fileId source).containers.filterMap
      (·.generatedBodyLine)).Nodup := by
  let bodies := Scopes.bodies ⟨0, [], [], 0⟩ (Markup.scan v source)
  have hlines :
      ((bodies.filterMap fun x => x.2.item.bodyLine?.map (x.1, ·)).map Prod.snd).Nodup := by
    rw [List.map_filterMap]
    simp only [Option.map_map, Function.comp_def, Option.map_id']
    exact h.sublist (sublist_bodyLines _ _)
  refine nodup_of_notes hlines fun i c hc line hline => ?_
  -- The line is that of a marker in the container's body.
  rw [(filled_recorded hc).1.line, Item.bodyLine, List.filterMap_map] at hline
  obtain ⟨_, hitem, hmarker⟩ := List.mem_filterMap.1 (List.mem_of_getLast? hline)
  obtain ⟨⟨slot, x⟩, hat, rfl⟩ := List.mem_map.1 hitem
  obtain ⟨hbody, hslot⟩ := List.mem_filter.1 hat
  obtain rfl : slot = i := of_decide_eq_true hslot
  have hmarker : x.item.bodyLine? = some line := hmarker
  exact List.mem_filterMap.2 ⟨(slot, x), hbody, by rw [hmarker]; rfl⟩

/-! ## Macros of a run -/

namespace Builder

variable {b : Builder}

theorem containerOf_fileId (b : Builder) (a d : Excerpt) :
    (b.containerOf a d).1.fileId = b.fileId := by
  obtain ⟨_, _, _, _, _, h⟩ := b.containerOf_empty a d
  rw [h]

theorem Keeps.takeAll_fileId {fileId : String} (hb : b.fileId = fileId)
    (h : Keeps (fun f => f.container.fileId = fileId) (fun _ c => c.fileId = fileId) b)
    (es : List (Except ScanFault Event)) :
    Keeps (fun f => f.container.fileId = fileId) (fun _ c => c.fileId = fileId)
      (b.takeAll es) := by
  induction es generalizing b with
  | nil => exact h
  | cons e es ih =>
    refine ih ((b.fileId_names_take e).1.trans hb) (h.take e ?_ ?_ fun f hf _ => hf)
    · rintro i _ f g outer _ ⟨_, rfl, -⟩ hf
      exact hf
    · intro position a d body _
      have hfile := b.containerOf_fileId a d
      rw [hb] at hfile
      refine ⟨fun f _ _ hc => ?_, fun c enumerators hc => ?_⟩
      · rw [hc] at hfile
        exact hfile
      · rw [hc] at hfile
        exact hfile

end Builder

theorem fileId_of_mem_containers {v : Vocabulary} {path fileId source : String} {c : Container}
    (hc : c ∈ (FileModel.ofSource v path fileId source).containers) : c.fileId = fileId := by
  have hkept := (Builder.Keeps.start path fileId).takeAll_fileId rfl (Markup.scan v source)
  obtain ⟨_, hfile⟩ := hkept.of_mem_containers hc
  exact hfile

/-- The name of a container's macro, if it has a marker. -/
def Container.bodyMacroName? (options : GenerationOptions) (c : Container) : Option String :=
  c.generatedBodyLine.map (Tables.bodyMacroName options c.fileId)

namespace Project

open HeaderReflection.Path (IsName)

/-- The names of the macros of all containers. -/
def Analysis.bodyMacroNames (options : GenerationOptions) (a : Analysis) : List String :=
  a.containers.filterMap (·.bodyMacroName? options)

variable {v : Vocabulary} {t : FileTree}

theorem fileId_of_mem_modelOf {s : SourceFile} {c : Container}
    (hc : c ∈ (modelOf v t s).containers) : c.fileId = s.fileId := by
  unfold modelOf at hc
  split at hc
  · exact fileId_of_mem_containers hc
  · cases hc

/-- The macros of a file are those of the lines that its containers have. -/
theorem filterMap_bodyMacroName (options : GenerationOptions) (s : SourceFile) :
    (modelOf v t s).containers.filterMap (·.bodyMacroName? options) =
      ((modelOf v t s).containers.filterMap (·.generatedBodyLine)).map
        (Tables.bodyMacroName options s.fileId) := by
  rw [List.map_filterMap]
  refine List.filterMap_congr fun c hc => ?_
  rw [Container.bodyMacroName?, fileId_of_mem_modelOf hc]

theorem nodup_bodyMacroNames_modelOf (options : GenerationOptions) {s : SourceFile}
    (h : ∀ text, t.readText s.path = .ok text → (bodyLines (Markup.scan v text)).Nodup) :
    ((modelOf v t s).containers.filterMap (·.bodyMacroName? options)).Nodup := by
  rw [filterMap_bodyMacroName]
  refine List.Nodup.map (fun l m hlm => (Tables.bodyMacroName_eq_iff.1 hlm).2) ?_
  unfold modelOf
  cases hread : t.readText s.path with
  | error e => exact List.nodup_nil
  | ok text => exact nodup_generatedBodyLines s.path s.fileId (h text hread)

/-- Files that share the name of a macro have the same letters and digits in their own names. -/
theorem disjoint_bodyMacroNames (options : GenerationOptions) {s s' : SourceFile}
    (h : ¬SameLetters s.fileId s'.fileId) :
    List.Disjoint ((modelOf v t s).containers.filterMap (·.bodyMacroName? options))
      ((modelOf v t s').containers.filterMap (·.bodyMacroName? options)) := by
  rw [filterMap_bodyMacroName, filterMap_bodyMacroName]
  intro n hn hn'
  obtain ⟨line, -, rfl⟩ := List.mem_map.1 hn
  obtain ⟨line', -, hname⟩ := List.mem_map.1 hn'
  exact h (Tables.bodyMacroName_eq_iff.1 hname.symm).1

/-- The macros of files have different names if the files' names have different letters and digits,
and no line of a file has two markers. -/
theorem nodup_bodyMacroNames (options : GenerationOptions) {sources : List SourceFile}
    (hfiles : sources.Pairwise fun s s' => ¬SameLetters s.fileId s'.fileId)
    (hlines : ∀ s ∈ sources, ∀ text, t.readText s.path = .ok text →
      (bodyLines (Markup.scan v text)).Nodup) :
    ((Analysis.ofModels (sources.map fun s => (s, modelOf v t s))).bodyMacroNames options).Nodup := by
  rw [Analysis.bodyMacroNames, containers_ofModels, List.flatMap_map, List.filterMap_flatMap,
    List.nodup_flatMap]
  exact ⟨fun s hs => nodup_bodyMacroNames_modelOf options (hlines s hs),
    hfiles.imp fun hne => disjoint_bodyMacroNames options hne⟩

/-- **Two containers share the name of their generated-body macro just if their markers stand on
lines of one number, in files whose names have the same letters and digits.** So all macros of a run
have different names if no two input files have such names, and no line of one has two markers. -/
theorem bodyMacros_apart {c : Config} {a : Analysis} (h : analyze c t = .ok a) :
    (∀ r : Resolved, Tables.generate c.codegen.options r .header =
      (r.container.bodyMacroName? c.codegen.options).elim "" fun name =>
        lines ("" :: Tables.title r.container ::
          Tables.continued (("#define " ++ name) :: Tables.expansion r.container))) ∧
    (∀ (x y : Container) (line line' : Nat),
      x.generatedBodyLine = some line → y.generatedBodyLine = some line' →
        (x.bodyMacroName? c.codegen.options = y.bodyMacroName? c.codegen.options ↔
          SameLetters x.fileId y.fileId ∧ line = line')) ∧
    ((a.files.map (·.source)).Pairwise (fun s s' => ¬SameLetters s.fileId s'.fileId) →
      (∀ s ∈ a.files.map (·.source), ∀ text, t.readText s.path = .ok text →
        (bodyLines (Markup.scan c.vocabulary text)).Nodup) →
      (a.bodyMacroNames c.codegen.options).Nodup) := by
  refine ⟨fun r => ?_, fun x y line line' hx hy => ?_, fun hfiles hlines => ?_⟩
  · show Tables.bodyMacro _ _ = _
    rw [Tables.bodyMacro_eq, Container.bodyMacroName?]
    cases r.container.generatedBodyLine <;> rfl
  · rw [Container.bodyMacroName?, Container.bodyMacroName?, hx, hy, Option.map_some,
      Option.map_some, Option.some.injEq, Tables.bodyMacroName_eq_iff]
  · obtain ⟨sources, -, hof⟩ := bind_eq_ok_iff.1 h
    obtain rfl := Except.ok.inj hof
    have hsources : (Analysis.ofModels
        (sources.map fun s => (s, modelOf c.vocabulary t s))).files.map (·.source) = sources := by
      rw [files_ofModels, List.map_map]
      exact List.map_id sources
    rw [hsources] at hfiles hlines
    exact nodup_bodyMacroNames _ hfiles hlines

/-! ### Two headers with a struct each -/

theorem readText_pair {name other : String} (hname : IsName name) (hother : IsName other)
    (hne : name ≠ other) :
    (pairTree name other).readText (Path.join "src" name) = .ok structText ∧
      (pairTree name other).readText (Path.join "src" other) =
        .ok "STRUCT() struct T { GENERATED_BODY() };" := by
  have hplain := pairTree_isPlain hname hother hne
  have hbase : (pairTree name other).Reaches "src" := FileTree.reaches_of_isName (by decide)
  have hsrc : Path.destination "src" = ["src"] := by decide
  exact ⟨readText_pathBelow hplain hbase (l := [name])
      (by simp [pairTree, FileTree.find?, List.lookup_cons, hsrc]),
    readText_pathBelow hplain hbase (l := [other])
      (by simp [pairTree, FileTree.find?, List.lookup_cons, hsrc, beq_false_of_ne hne.symm])⟩

theorem analyze_pair {name other : String} (hname : IsName name) (hother : IsName other)
    (hlt : name < other) (hext : hasExtension id smallConfig.input.extensions name = true)
    (hext' : hasExtension id smallConfig.input.extensions other = true) :
    analyze smallConfig (pairTree name other) = .ok (.ofModels
      [(⟨Path.join "src" name, name⟩,
        FileModel.ofSource {} (Path.join "src" name) name structText),
        (⟨Path.join "src" other, other⟩, FileModel.ofSource {} (Path.join "src" other) other
          "STRUCT() struct T { GENERATED_BODY() };")]) := by
  obtain ⟨hread, hread'⟩ := readText_pair hname hother (String.ne_of_lt hlt)
  rw [analyze, discover_pair hname hother hlt hext hext', ok_bind]
  simp only [List.map_cons, List.map_nil, modelOf, hread, hread']
  rfl

theorem bodyMacros_apart_pair :
    ∃ a, analyze smallConfig (pairTree "a.h" "b.h") = .ok a ∧
      a.containers.map (·.generatedBodyLine) = [some 1, some 1] ∧
      (a.bodyMacroNames smallConfig.codegen.options).Nodup := by
  have hname : IsName "a.h" := by decide
  have hother : IsName "b.h" := by decide
  have ha := analyze_pair hname hother (by decide) (by decide) (by decide)
  obtain ⟨hread, hread'⟩ := readText_pair hname hother (by decide)
  obtain ⟨-, -, hnodup⟩ := bodyMacros_apart ha
  refine ⟨_, ha, by decide +kernel, hnodup ?_ ?_⟩
  · rw [files_ofModels]
    simp only [← fileSymbol_eq_iff]
    decide +kernel
  · rw [files_ofModels]
    simp only [List.map_cons, List.map_nil, List.forall_mem_cons, List.not_mem_nil, false_imp_iff,
      implies_true, and_true, hread, hread', Except.ok.injEq, forall_eq']
    decide +kernel

/-- Two headers whose names differ in a mark share the macro of their structs. -/
theorem bodyMacros_shared :
    ¬∀ c t a, analyze c t = .ok a → (a.bodyMacroNames c.codegen.options).Nodup := by
  intro h
  have hname : IsName "a-b.h" := by decide
  have hother : IsName "a_b.h" := by decide
  have ha := analyze_pair hname hother (by decide) (by decide) (by decide)
  have hnodup := h _ _ _ ha
  revert hnodup
  decide +kernel

end Project

end HeaderReflection
