import HeaderReflection.FileTree.Path

/-!
# File trees

A tree of directories, files and symbolic links, kept as its entries by their locations: the names
that lead from the top to them. The working directory is the top, and the top is its own parent.

* `find?_insert_same`, `find?_insert_other`: writing an entry changes that entry alone.
* `find?_remove_same`, `find?_remove_other`: so does removing one.
-/

namespace HeaderReflection

/-- What can stop an operation on files. -/
inductive FileError where
  | notFound | notDirectory | isDirectory | occupied | busy | tooManyLinks | invalidText
  deriving DecidableEq, Repr

/-- The text of a file error. -/
def FileError.message : FileError → String
  | notFound => "No such file or directory (os error 2)"
  | busy => "Device or resource busy (os error 16)"
  | occupied => "File exists (os error 17)"
  | notDirectory => "Not a directory (os error 20)"
  | isDirectory => "Is a directory (os error 21)"
  | tooManyLinks => "Too many levels of symbolic links (os error 40)"
  | invalidText => "stream did not contain valid UTF-8"

/-- The names that lead from the top of a tree to an entry. A name is kept as text, or byte by byte
as the characters with these numbers where it need not be text. -/
abbrev Location := List String

/-- What a location holds. -/
inductive Entry where
  | file (content : ByteArray)
  | directory
  | link (target : String)

/-- The entry is a file. -/
def Entry.isFile : Entry → Bool
  | .file _ => true
  | _ => false

/-- The entry is a directory. -/
def Entry.isDirectory : Entry → Bool
  | .directory => true
  | _ => false

/-- A tree of files. The top is a directory without an entry of its own. -/
structure FileTree where
  entries : List (Location × Entry) := []

namespace FileTree

/-- What stands at a location. -/
def find? (t : FileTree) (l : Location) : Option Entry :=
  if l = [] then some .directory else t.entries.lookup l

/-- The tree without the entry of a location. -/
def remove (t : FileTree) (l : Location) : FileTree :=
  ⟨t.entries.filter fun e => e.1 ≠ l⟩

/-- The tree with an entry at a location, in place of the one that was there. -/
def insert (t : FileTree) (l : Location) (e : Entry) : FileTree :=
  ⟨(l, e) :: (t.remove l).entries⟩

theorem lookup_filter_ne {l m : Location} (h : m ≠ l) (es : List (Location × Entry)) :
    (es.filter fun e => e.1 ≠ l).lookup m = es.lookup m := by
  induction es with
  | nil => rfl
  | cons e es ih =>
    obtain ⟨k, v⟩ := e
    by_cases hk : k = l
    · have hm : (m == k) = false := beq_eq_false_iff_ne.2 (hk ▸ h)
      simp [hk, List.lookup_cons, hk ▸ hm]
      simpa using ih
    · simp only [List.filter_cons, ne_eq, hk, not_false_eq_true, decide_true, if_true,
        List.lookup_cons]
      split
      · rfl
      · simpa using ih

theorem find?_remove_other {t : FileTree} {l m : Location} (h : m ≠ l) :
    (t.remove l).find? m = t.find? m := by
  simp only [find?, remove]
  split
  · rfl
  · exact lookup_filter_ne h _

theorem find?_remove_same {t : FileTree} {l : Location} (h : l ≠ []) :
    (t.remove l).find? l = none := by
  simp only [find?, remove, h, if_false]
  induction t.entries with
  | nil => rfl
  | cons e es ih =>
    obtain ⟨k, v⟩ := e
    by_cases hk : k = l
    · simpa [hk] using ih
    · have hl : (l == k) = false := beq_eq_false_iff_ne.2 (Ne.symm hk)
      simp only [List.filter_cons, ne_eq, hk, not_false_eq_true, decide_true, if_true,
        List.lookup_cons, hl]
      exact ih

theorem find?_insert_same {t : FileTree} {l : Location} {e : Entry} (h : l ≠ []) :
    (t.insert l e).find? l = some e := by
  simp [find?, insert, h]

theorem find?_insert_other {t : FileTree} {l m : Location} {e : Entry} (h : m ≠ l) :
    (t.insert l e).find? m = t.find? m := by
  have hm : (m == l) = false := beq_eq_false_iff_ne.2 h
  rw [← find?_remove_other (t := t) h]
  simp [find?, insert, List.lookup_cons, hm]

/-- The rest of a location below another one. -/
def relative? : Location → Location → Option Location
  | [], rest => some rest
  | _ :: _, [] => none
  | a :: base, b :: rest => if a = b then relative? base rest else none

/-- The entries below a location, with the names that lead to them from there. -/
def below (t : FileTree) (l : Location) : List (Location × Entry) :=
  t.entries.filterMap fun (m, e) =>
    match relative? l m with
    | some (name :: rest) => some (name :: rest, e)
    | _ => none

/-- The files below a location, with their contents. Links are not followed. -/
def filesBelow (t : FileTree) (l : Location) : List (Location × ByteArray) :=
  (t.below l).filterMap fun (m, e) =>
    match e with
    | .file content => some (m, content)
    | _ => none

/-- Locations in the order of their names, one after another. -/
def locationLe : Location → Location → Bool
  | [], _ => true
  | _ :: _, [] => false
  | a :: l, b :: m => a < b || (a = b && locationLe l m)

/-- The path of what stands at a location below a directory. -/
def pathBelow (directory : String) (l : Location) : String :=
  l.foldl Path.join directory

end FileTree

end HeaderReflection
