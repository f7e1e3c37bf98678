import HeaderReflection.Yaml.Node
import HeaderReflection.Yaml.Scalar

/-!
# Reading YAML

Documents of block and flow collections and plain and quoted scalars. Where a block collection ends
is told by the columns of what follows it: its entries start at one column, and what stands in an
entry starts behind that column. Anchors, aliases, tags, block scalars, directives and explicit keys
are refused.
-/

namespace HeaderReflection.Yaml

/-- A quoted scalar at its opening quote. -/
def readQuoted (c : Cursor) : Option (Node × Cursor) :=
  match c.rest with
  | '\x22' :: rest =>
    (doubleQuotedFrom [] (.blanks []) c.line (c.column + 1) rest).map fun (s, c) =>
      (.scalar s false, c)
  | '\x27' :: rest =>
    (singleQuotedFrom [] (.blanks []) c.line (c.column + 1) rest).map fun (s, c) =>
      (.scalar s false, c)
  | _ => none

/-- A scalar of any kind. -/
def readScalar (flow : Bool) (indent : Nat) (c : Cursor) : Option (Node × Cursor) :=
  match c.content with
  | '\x22' :: _ | '\x27' :: _ => readQuoted c
  | cs =>
    if startsPlain flow cs then
      (readPlain flow indent c).map fun (s, c) => (.scalar s true, c)
    else none

/-! ## Flow collections

Every call takes a character or goes to a smaller part of the collection, so twice the length of
the text bounds their depth. -/

mutual

/-- A node in a flow collection. -/
def flowNode (indent : Nat) : Nat → Cursor → Option (Node × Cursor)
  | 0, _ => none
  | n + 1, c =>
    match c.content with
    | '[' :: _ => (flowItems indent n [] (c.advance 1).skipInFlow).map fun (items, c) =>
      (.sequence items, c)
    | '\x7b' :: _ => (flowEntries indent n [] (c.advance 1).skipInFlow).map fun (entries, c) =>
      (.mapping entries, c)
    | _ => readScalar true indent c

/-- The value behind a colon in a flow collection, which may be missing. -/
def flowValue (indent : Nat) : Nat → Cursor → Option (Node × Cursor)
  | 0, _ => none
  | n + 1, c =>
    match c.content with
    | ',' :: _ | ']' :: _ | '\x7d' :: _ => some (.nothing, c)
    | _ => flowNode indent n c

/-- The items of a flow sequence up to its end, with the ones before them last first. -/
def flowItems (indent : Nat) : Nat → List Node → Cursor → Option (List Node × Cursor)
  | 0, _, _ => none
  | n + 1, before, c =>
    match c.content with
    | ']' :: _ => some (before.reverse, c.advance 1)
    | _ => do
      let (item, after) ← flowNode indent n c
      let after := after.skipInFlow
      let (item, after) ← match after.content with
        | ':' :: _ =>
          if after.line = c.line then
            (flowValue indent n (after.advance 1).skipInFlow).map fun (value, c) =>
              (.mapping [(item, value)], c.skipInFlow)
          else none
        | _ => some (item, after)
      match after.content with
      | ',' :: _ => flowItems indent n (item :: before) (after.advance 1).skipInFlow
      | ']' :: _ => some ((item :: before).reverse, after.advance 1)
      | _ => none

/-- The entries of a flow mapping up to its end, with the ones before them last first. -/
def flowEntries (indent : Nat) :
    Nat → List (Node × Node) → Cursor → Option (List (Node × Node) × Cursor)
  | 0, _, _ => none
  | n + 1, before, c =>
    match c.content with
    | '\x7d' :: _ => some (before.reverse, c.advance 1)
    | _ => do
      let (key, after) ← flowNode indent n c
      let after := after.skipInFlow
      let (value, after) ← match after.content with
        | ':' :: _ =>
          if after.line = c.line then
            (flowValue indent n (after.advance 1).skipInFlow).map fun (value, c) =>
              (value, c.skipInFlow)
          else none
        | _ => some (.nothing, after)
      match after.content with
      | ',' :: _ => flowEntries indent n ((key, value) :: before) (after.advance 1).skipInFlow
      | '\x7d' :: _ => some (((key, value) :: before).reverse, after.advance 1)
      | _ => none

end

/-! ## Block collections -/

/-- A node without block structure. -/
def readInline (indent : Nat) (c : Cursor) : Option (Node × Cursor) :=
  match c.content with
  | '[' :: _ | '\x7b' :: _ => flowNode indent (2 * c.rest.length + 2) c
  | _ => readScalar false indent c

/-- A key of a block mapping, up to the colon behind it on the same line. -/
def readKey (indent : Nat) (c : Cursor) : Option (Node × Cursor) := do
  let (key, after) ← readInline indent c
  let after := after.skipInBlock true
  if after.atColon && after.line = c.line then some (key, after) else none

mutual

/-- A node at its first character. A block collection can start there if `fresh` is set. -/
def blockNode : Nat → Nat → Bool → Cursor → Option (Node × Cursor)
  | 0, _, _, _ => none
  | n + 1, indent, fresh, c =>
    if c.atEntry then
      if fresh then (blockItems n c.column [] c).map fun (items, c) => (.sequence items, c)
      else none
    else do
      let (node, after) ← readInline indent c
      let after := after.skipInBlock true
      if after.atColon then
        if fresh && after.line = c.line then
          (blockEntries n c.column [] node after).map fun (entries, c) => (.mapping entries, c)
        else none
      else some (node, after)

/-- The items of a block sequence, from a hyphen on. -/
def blockItems : Nat → Nat → List Node → Cursor → Option (List Node × Cursor)
  | 0, _, _, _ => none
  | n + 1, column, before, c => do
    let start := (c.advance 1).skipInBlock false
    let (item, after) ←
      if start.atEnd || start.column ≤ column then some (.nothing, start)
      else blockNode n (column + 1) true start
    if after.column = column && after.atEntry then blockItems n column (item :: before) after
    else some ((item :: before).reverse, after)

/-- The entries of a block mapping, from the colon behind a key on. -/
def blockEntries : Nat → Nat → List (Node × Node) → Node → Cursor →
    Option (List (Node × Node) × Cursor)
  | 0, _, _, _, _ => none
  | n + 1, column, before, key, c => do
    let start := (c.advance 1).skipInBlock true
    let (value, after) ←
      if start.atEnd then some (.nothing, start)
      else if start.line = c.line then blockNode n (column + 1) false start
      else if start.column = column && start.atEntry then
        (blockItems n column [] start).map fun (items, c) => (.sequence items, c)
      else if start.column ≤ column then some (.nothing, start)
      else blockNode n (column + 1) true start
    let before := (key, value) :: before
    if !after.atEnd && after.column = column && !after.atEntry then
      let (key, after) ← readKey (column + 1) after
      blockEntries n column before key after
    else some (before.reverse, after)

end

/-! ## Documents -/

/-- What stands behind a document, if it is the only one. -/
def endsStream (c : Cursor) : Bool :=
  match c.rest with
  | [] => true
  | '.' :: _ => c.atMarker && ((c.advance 3).skipInBlock true).rest.isEmpty
  | _ => false

/-- The start of a document and whether a block collection can start there. -/
def documentStart (cs : List Char) : Cursor × Bool :=
  let c := ({ rest := cs } : Cursor).skipInBlock false
  match c.rest with
  | '-' :: _ =>
    if c.atMarker then
      let start := (c.advance 3).skipInBlock true
      (start, start.line ≠ c.line)
    else (c, true)
  | _ => (c, true)

/-- The content of a text that is one document. -/
def parse (text : String) : Option Node := do
  let cs := text.toList
  let cs := if cs.head? = some '\ufeff' then cs.drop 1 else cs
  if !cs.all isPrintable then none
  let (start, fresh) := documentStart (unifyBreaks cs)
  let (node, after) ←
    if start.atEnd then some (.nothing, start)
    else blockNode (2 * cs.length + 2) 0 fresh start
  if endsStream after then some node else none

end HeaderReflection.Yaml
