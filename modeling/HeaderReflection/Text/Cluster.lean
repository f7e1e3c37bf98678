import HeaderReflection.Text.ClusterTable
import HeaderReflection.Text.CharClass

/-!
# Grapheme clusters

A text falls into clusters, what a reader takes for one character: a letter with its marks, a
Hangul syllable, a line end of two characters, a flag, a joined pictograph.

* `flatten_clusters`: the clusters of a text make up the text.
* `ne_nil_of_mem_clusters`: no cluster is empty.
-/

namespace HeaderReflection.Text

/-- What the cluster rules tell apart. -/
inductive ClusterClass where
  | carriageReturn | lineFeed | control | extend | joiner | spacingMark | prepend
  | regional | leadingJamo | vowelJamo | trailingJamo | openSyllable | closedSyllable
  | pictograph | other
  deriving DecidableEq, Repr

/-- The class of a character. -/
def clusterClass (c : Char) : ClusterClass :=
  let n := c.toNat
  if n < 128 then
    if n = 13 then .carriageReturn
    else if n = 10 then .lineFeed
    else if n < 32 || n = 127 then .control
    else .other
  else if n = 0x200d then .joiner
  else if 0x1f1e6 ≤ n && n ≤ 0x1f1ff then .regional
  else if 0xac00 ≤ n && n ≤ 0xd7a3 then
    if (n - 0xac00) % 28 = 0 then .openSyllable else .closedSyllable
  else if inRanges ClusterTable.extend c then .extend
  else if inRanges ClusterTable.spacingMark c then .spacingMark
  else if inRanges ClusterTable.control c then .control
  else if inRanges ClusterTable.prepend c then .prepend
  else if inRanges ClusterTable.leadingJamo c then .leadingJamo
  else if inRanges ClusterTable.vowelJamo c then .vowelJamo
  else if inRanges ClusterTable.trailingJamo c then .trailingJamo
  else if inRanges ClusterTable.pictographic c then .pictograph
  else .other

/-- How far a pictograph with its marks has been read. -/
inductive PictographState where
  | none | marked | joined
  deriving DecidableEq, Repr

/-- What has been read of the current cluster, as far as its end depends on it. -/
structure ClusterState where
  last : ClusterClass
  pictograph : PictographState
  /-- An odd number of regional indicators ends here. -/
  oddRegional : Bool
  deriving Repr

/-- The state after the next character. -/
def ClusterState.next (s : ClusterState) (k : ClusterClass) : ClusterState :=
  { last := k
    pictograph := match k with
      | .pictograph => .marked
      | .extend => if s.pictograph = .marked then .marked else .none
      | .joiner => if s.pictograph = .marked then .joined else .none
      | _ => .none
    oddRegional := k = .regional && !(s.last = .regional && s.oddRegional) }

/-- The state after the first character of a text. -/
def ClusterState.first (k : ClusterClass) : ClusterState :=
  { last := k
    pictograph := if k = .pictograph then .marked else .none
    oddRegional := k = .regional }

/-- A character of this class continues the cluster. -/
def ClusterState.continues (s : ClusterState) (k : ClusterClass) : Bool :=
  match s.last, k with
  | .carriageReturn, .lineFeed => true
  | .carriageReturn, _ | .lineFeed, _ | .control, _ => false
  | _, .carriageReturn | _, .lineFeed | _, .control => false
  | .leadingJamo, .leadingJamo | .leadingJamo, .vowelJamo => true
  | .leadingJamo, .openSyllable | .leadingJamo, .closedSyllable => true
  | .openSyllable, .vowelJamo | .vowelJamo, .vowelJamo => true
  | .openSyllable, .trailingJamo | .vowelJamo, .trailingJamo => true
  | .closedSyllable, .trailingJamo | .trailingJamo, .trailingJamo => true
  | _, .extend | _, .joiner | _, .spacingMark => true
  | .prepend, _ => true
  | .joiner, .pictograph => s.pictograph = .joined
  | .regional, .regional => s.oddRegional
  | _, _ => false

/-- The clusters of a text of which a first cluster, given reversed, has been begun. -/
def clustersFrom (s : ClusterState) (begun : List Char) : List Char → List (List Char)
  | [] => [begun.reverse]
  | c :: rest =>
    let k := clusterClass c
    if s.continues k then clustersFrom (s.next k) (c :: begun) rest
    else begun.reverse :: clustersFrom (s.next k) [c] rest

/-- The clusters of a text, in order. -/
def clusters : List Char → List (List Char)
  | [] => []
  | c :: rest => clustersFrom (.first (clusterClass c)) [c] rest

theorem flatten_clustersFrom (s : ClusterState) (begun cs : List Char) :
    (clustersFrom s begun cs).flatten = begun.reverse ++ cs := by
  induction cs generalizing s begun with
  | nil => simp [clustersFrom]
  | cons c rest ih =>
    rw [clustersFrom]
    split <;> simp [ih]

theorem flatten_clusters (cs : List Char) : (clusters cs).flatten = cs := by
  cases cs with
  | nil => rfl
  | cons c rest => simp [clusters, flatten_clustersFrom]

theorem ne_nil_of_mem_clustersFrom {s : ClusterState} {begun cs g : List Char}
    (hb : begun ≠ []) (hg : g ∈ clustersFrom s begun cs) : g ≠ [] := by
  induction cs generalizing s begun with
  | nil =>
    simp only [clustersFrom, List.mem_singleton] at hg
    simpa [hg] using hb
  | cons c rest ih =>
    rw [clustersFrom] at hg
    split at hg
    · exact ih (by simp) hg
    · rcases List.mem_cons.1 hg with rfl | hg
      · simpa using hb
      · exact ih (by simp) hg

theorem ne_nil_of_mem_clusters {cs g : List Char} (hg : g ∈ clusters cs) : g ≠ [] := by
  cases cs with
  | nil => simp [clusters] at hg
  | cons c rest => exact ne_nil_of_mem_clustersFrom (by simp) hg

end HeaderReflection.Text
