import HeaderReflection.Config.Basic
import HeaderReflection.Fault
import HeaderReflection.FileTree.Lookup
import HeaderReflection.Yaml.Parse

/-!
# Reading configurations

A configuration file is a YAML document with a mapping for each section. A section or a setting that
is missing has its default, and names that are not known are ignored.
-/

namespace HeaderReflection

open Yaml (Node)
open Yaml.Node (field)

/-- The section with the project's name. -/
def ProjectInfo.ofNode? (node : Node) : Option ProjectInfo := do
  let d : ProjectInfo := {}
  let fields ← node.fields? ["name", "description"]
  let name ← field fields "name" Node.text? d.name
  let description ← field fields "description" Node.text? d.description
  some { name, description }

/-- The section with the input files. -/
def InputConfig.ofNode? (node : Node) : Option InputConfig := do
  let d : InputConfig := {}
  let fields ← node.fields? ["root", "extensions", "exclude"]
  let root ← field fields "root" Node.text? d.root
  let extensions ← field fields "extensions" Node.texts? d.extensions
  let exclude ← field fields "exclude" Node.texts? d.exclude
  some { root, extensions, exclude }

/-- The section with the generated files. -/
def OutputConfig.ofNode? (node : Node) : Option OutputConfig := do
  let d : OutputConfig := {}
  let fields ← node.fields? ["root", "suffix", "prune_stale"]
  let root ← field fields "root" Node.text? d.root
  let suffix ← field fields "suffix" Node.text? d.suffix
  let pruneStale ← field fields "prune_stale" Node.flag? d.pruneStale
  some { root, suffix, pruneStale }

/-- The section with what is generated. -/
def CodegenConfig.ofNode? (node : Node) : Option CodegenConfig := do
  let d : CodegenConfig := {}
  let fields ← node.fields? ["backends", "type_info", "macro_prefix", "runtime_include",
    "runtime_namespace", "external_bases"]
  let backends ← field fields "backends" Node.texts? d.backends
  let typeInfo ← field fields "type_info" Node.flag? d.options.typeInfo
  let macroPrefix ← field fields "macro_prefix" Node.text? d.options.macroPrefix
  let runtimeInclude ← field fields "runtime_include" Node.text? d.options.runtimeInclude
  let runtimeNamespace ← field fields "runtime_namespace" Node.text? d.options.runtimeNamespace
  let externalBases ← field fields "external_bases" Node.texts? d.externalBases
  some { backends, options := { typeInfo, macroPrefix, runtimeInclude, runtimeNamespace },
         externalBases }

/-- The section with the marker words. -/
def Vocabulary.ofNode? (node : Node) : Option Vocabulary := do
  let d : Vocabulary := {}
  let fields ← node.fields? ["container", "property", "function", "generated_body"]
  let container ← field fields "container" Node.texts? d.container
  let property ← field fields "property" Node.texts? d.property
  let function ← field fields "function" Node.texts? d.function
  let generatedBody ← field fields "generated_body" Node.texts? d.generatedBody
  some { container, property, function, generatedBody }

namespace Config

/-- The configuration of a document. -/
def ofNode? (node : Node) : Option Config := do
  let d : Config := {}
  let fields ← node.fields? ["project", "input", "output", "codegen", "vocabulary"]
  let project ← field fields "project" ProjectInfo.ofNode? d.project
  let input ← field fields "input" InputConfig.ofNode? d.input
  let output ← field fields "output" OutputConfig.ofNode? d.output
  let codegen ← field fields "codegen" CodegenConfig.ofNode? d.codegen
  let vocabulary ← field fields "vocabulary" Vocabulary.ofNode? d.vocabulary
  some { project, input, output, codegen, vocabulary }

/-- The name of the configuration file of a project. -/
def fileName : String := "reflect.yaml"

/-- The configuration of a text, which is reported by a name if it cannot be read. -/
def ofText (name text : String) : Except Fault Config :=
  match (Yaml.parse text).bind ofNode? with
  | some c => .ok c
  | none => .error (.configuration ("Failed to parse " ++ name))

/-- The roots, if they are relative, taken from a directory. -/
def rootedAt (c : Config) (directory : String) : Config :=
  { c with
    input := { c.input with root := Path.join directory c.input.root }
    output := { c.output with root := Path.join directory c.output.root } }

/-- The configuration of a file, whose relative roots are taken from the file's directory. -/
def load (t : FileTree) (path : String) : Except Fault Config :=
  match t.readText path with
  | .error e => .error (.configuration ("Failed to read " ++ path ++ ": " ++ e.message))
  | .ok text => do
    let c ← ofText path text
    return match Path.parent? path with
      | some directory => c.rootedAt directory
      | none => c

end Config

end HeaderReflection
