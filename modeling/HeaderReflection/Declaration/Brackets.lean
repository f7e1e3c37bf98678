/-!
# Brackets in declarations

The tokens of a declaration nest by round, square, curly and angle brackets. A bracket of any shape
opens or closes one level; that two brackets fit together is not checked.

* `append_breakTop`, `append_closeGroup`: nothing is lost in cutting tokens.
* `length_le_of_mem_splitTop`: no part is longer than the whole.
-/

namespace HeaderReflection.Declaration

/-- The levels that a token opens. -/
def bracketDepth (t : String) : Int :=
  if ["(", "[", "\x7b", "<"].contains t then 1
  else if [")", "]", "\x7d", ">"].contains t then -1
  else 0

/-- The parts between the separators outside brackets, at a given depth. -/
def splitTop (separator : String) : Int → List String → List (List String)
  | _, [] => [[]]
  | depth, t :: rest =>
    if depth = 0 && t = separator then [] :: splitTop separator depth rest
    else match splitTop separator (depth + bracketDepth t) rest with
      | [] => [[t]]
      | part :: parts => (t :: part) :: parts

/-- The tokens before the first target outside brackets, and the tokens from it on. -/
def breakTop (targets : List String) : Int → List String → List String × List String
  | _, [] => ([], [])
  | depth, t :: rest =>
    if depth = 0 && targets.contains t then ([], t :: rest)
    else
      let r := breakTop targets (depth + bracketDepth t) rest
      (t :: r.1, r.2)

/-- The tokens through the one that brings the depth back to zero, and the tokens behind it. -/
def closeGroup : Int → List String → Option (List String × List String)
  | _, [] => none
  | depth, t :: rest =>
    if depth + bracketDepth t = 0 then some ([t], rest)
    else (closeGroup (depth + bracketDepth t) rest).map fun (group, after) => (t :: group, after)

theorem append_breakTop (targets : List String) (depth : Int) (ts : List String) :
    (breakTop targets depth ts).1 ++ (breakTop targets depth ts).2 = ts := by
  fun_induction breakTop targets depth ts <;> simp_all +zetaDelta

theorem append_closeGroup {depth : Int} {ts group after : List String}
    (h : closeGroup depth ts = some (group, after)) : group ++ after = ts := by
  induction ts generalizing depth group with
  | nil => simp [closeGroup] at h
  | cons t rest ih =>
    rw [closeGroup] at h
    split at h
    · obtain ⟨rfl, rfl⟩ := Prod.mk.inj (Option.some.inj h)
      rfl
    · simp only [Option.map_eq_some_iff, Prod.mk.injEq, Prod.exists] at h
      obtain ⟨g, a, hg, rfl, rfl⟩ := h
      simp [ih hg]

theorem length_closeGroup {depth : Int} {ts group after : List String}
    (h : closeGroup depth ts = some (group, after)) :
    group.length + after.length = ts.length := by
  rw [← append_closeGroup h, List.length_append]

theorem length_le_of_mem_splitTop {separator : String} {depth : Int} {ts part : List String}
    (h : part ∈ splitTop separator depth ts) : part.length ≤ ts.length := by
  induction ts generalizing depth part with
  | nil =>
    simp only [splitTop, List.mem_singleton] at h
    simp [h]
  | cons t rest ih =>
    rw [splitTop] at h
    split at h
    · rcases List.mem_cons.1 h with rfl | h
      · simp
      · exact Nat.le_succ_of_le (ih h)
    · split at h
      · simp only [List.mem_singleton] at h
        simp [h]
      · rename_i p ps hs
        rcases List.mem_cons.1 h with rfl | h
        · exact Nat.succ_le_succ (ih (hs ▸ List.mem_cons_self))
        · exact Nat.le_succ_of_le (ih (hs ▸ List.mem_cons_of_mem _ h))

end HeaderReflection.Declaration
