import HeaderReflection.Token.Basic

/-!
# Nested braces

* `depthAfter_append`: the depth behind a text is the depth behind its parts, one after the other.
* `depthAfter_add`: a nested text is nested at any depth.
-/

namespace HeaderReflection

/-- One brace of a text. -/
inductive Brace where
  | opening | closing
  deriving DecidableEq, Repr

namespace Brace

/-- The number of open braces behind a text, given the number before it. None if a brace of the
text closes nothing. -/
def depthAfter : Nat → List Brace → Option Nat
  | depth, [] => some depth
  | depth, .opening :: rest => depthAfter (depth + 1) rest
  | 0, .closing :: _ => none
  | depth + 1, .closing :: rest => depthAfter depth rest

/-- Every brace of a text has its partner in it. -/
def Nested (braces : List Brace) : Prop :=
  depthAfter 0 braces = some 0

instance (braces : List Brace) : Decidable (Nested braces) :=
  inferInstanceAs (Decidable (_ = _))

@[simp] theorem depthAfter_nil (depth : Nat) : depthAfter depth [] = some depth := rfl

@[simp] theorem depthAfter_opening (depth : Nat) (rest : List Brace) :
    depthAfter depth (.opening :: rest) = depthAfter (depth + 1) rest := rfl

@[simp] theorem depthAfter_zero_closing (rest : List Brace) :
    depthAfter 0 (.closing :: rest) = none := rfl

@[simp] theorem depthAfter_succ_closing (depth : Nat) (rest : List Brace) :
    depthAfter (depth + 1) (.closing :: rest) = depthAfter depth rest := rfl

theorem depthAfter_append (depth : Nat) (us vs : List Brace) :
    depthAfter depth (us ++ vs) = (depthAfter depth us).bind (depthAfter · vs) := by
  fun_induction depthAfter depth us with
  | case1 => rfl
  | case2 depth rest ih => rw [List.cons_append, depthAfter_opening, ih]
  | case3 => rfl
  | case4 depth rest ih => rw [List.cons_append, depthAfter_succ_closing, ih]

theorem depthAfter_add {depth after : Nat} {braces : List Brace}
    (h : depthAfter depth braces = some after) (more : Nat) :
    depthAfter (depth + more) braces = some (after + more) := by
  fun_induction depthAfter depth braces with
  | case1 => rw [Option.some.inj h, depthAfter_nil]
  | case2 depth rest ih =>
    rw [depthAfter_opening, Nat.add_right_comm]
    exact ih h
  | case3 => cases h
  | case4 depth rest ih =>
    rw [Nat.succ_eq_add_one, Nat.add_right_comm, depthAfter_succ_closing]
    exact ih h

/-- A nested text in front changes no depth. -/
theorem Nested.depthAfter_append {us : List Brace} (h : Nested us) (depth : Nat)
    (vs : List Brace) : depthAfter depth (us ++ vs) = depthAfter depth vs := by
  have := depthAfter_add h depth
  rw [Nat.zero_add] at this
  rw [Brace.depthAfter_append, this]
  rfl

theorem Nested.nil : Nested [] := rfl

theorem Nested.append {us vs : List Brace} (hu : Nested us) (hv : Nested vs) :
    Nested (us ++ vs) :=
  (hu.depthAfter_append 0 vs).trans hv

end Brace

/-- The brace that a token is. -/
def Token.brace? (t : Token) : Option Brace :=
  if t.isPunctuation "\x7b" then some .opening
  else if t.isPunctuation "\x7d" then some .closing
  else none

/-- The braces of tokens. -/
def Token.braces (ts : List Token) : List Brace :=
  ts.filterMap Token.brace?

@[simp] theorem Token.braces_append (ts us : List Token) :
    Token.braces (ts ++ us) = Token.braces ts ++ Token.braces us :=
  List.filterMap_append

end HeaderReflection
