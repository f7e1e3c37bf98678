/-!
# Paths

A path is a text of segments with slashes between them. Empty segments and single points count for
nothing, but for a point at the very start.
-/

namespace HeaderReflection.Path

/-- A step that a path names. -/
inductive Part where
  | root | here | up
  | name (s : String)
  deriving DecidableEq, Repr

/-- The texts between slashes, the current one given reversed. -/
def splitSlashes (segment : List Char) : List Char → List (List Char)
  | [] => [segment.reverse]
  | c :: rest =>
    if c = '/' then segment.reverse :: splitSlashes [] rest else splitSlashes (c :: segment) rest

/-- The texts between the slashes of a path. -/
def segments (path : String) : List String :=
  (splitSlashes [] path.toList).map String.ofList

/-- The path starts at the root. -/
def isAbsolute (path : String) : Bool :=
  path.toList.head? = some '/'

/-- The step that a segment names, if it names one. -/
def partOf? (segment : String) : Option Part :=
  if segment = "" || segment = "." then none
  else if segment = ".." then some .up
  else some (.name segment)

/-- The steps of a path. Two paths with the same steps are equal. -/
def parts (path : String) : List Part :=
  let segs := segments path
  (if isAbsolute path then [.root] else if segs.head? = some "." then [.here] else [])
    ++ segs.filterMap partOf?

/-- The name of the last step, unless that one leads up. -/
def fileName? (path : String) : Option String :=
  match (parts path).getLast? with
  | some (.name s) => some s
  | _ => none

/-- A name cut at its last point: the stem, and the extension if a stem stands before the point. -/
def splitExtension (name : String) : String × Option String :=
  let backwards := name.toList.reverse
  let extension := backwards.takeWhile (· ≠ '.')
  match backwards.dropWhile (· ≠ '.') with
  | [] => (name, none)
  | _ :: stem =>
    if stem = [] then (name, none)
    else (String.ofList stem.reverse, some (String.ofList extension.reverse))

/-- The file name without its extension. -/
def stem? (path : String) : Option String :=
  (fileName? path).map fun name => (splitExtension name).1

/-- The extension of the file name. -/
def extension? (path : String) : Option String :=
  (fileName? path).bind fun name => (splitExtension name).2

/-- The segment names no step. -/
def isIdle (segment : String) : Bool :=
  segment = "" || segment = "."

/-- Reversed segments of a relative path without the last ones that name no step. A point at the
start of the path, which is the last of them here, does name one. -/
def dropIdle : List String → List String
  | [] => []
  | [s] => if s = "" then [] else [s]
  | s :: rest => if isIdle s then dropIdle rest else s :: rest

/-- The path without its last step, if it has a step that can be taken away. -/
def parent? (path : String) : Option String :=
  if isAbsolute path then
    match ((segments path).drop 1).reverse.dropWhile isIdle with
    | [] => none
    | _ :: rest => some ("/" ++ "/".intercalate (rest.dropWhile isIdle).reverse)
  else
    match dropIdle (segments path).reverse with
    | [] => none
    | _ :: rest => some ("/".intercalate (dropIdle rest).reverse)

/-- A path behind another one. An absolute path stands for itself. -/
def join (base path : String) : String :=
  if isAbsolute path then path
  else if base = "" || base.toList.getLast? = some '/' then base ++ path
  else base ++ "/" ++ path

end HeaderReflection.Path
