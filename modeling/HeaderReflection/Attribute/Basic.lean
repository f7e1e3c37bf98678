import HeaderReflection.Number.Basic

/-!
# Attributes

What stands between a marker's parentheses: keys with typed values, in the order they are written.
A key occurs once; a value may be a list of attributes in its turn.

* `keys_insert`: inserting a new key puts it last.
* `insert_of_contains`: inserting a key that is there changes nothing.
-/

namespace HeaderReflection

/-- The value of an attribute. -/
inductive AttributeValue where
  | text (s : String)
  | number (x : Number)
  | flag (b : Bool)
  | nested (entries : List (String × AttributeValue))
  deriving Inhabited

/-- Keys with their values, in the order they are written. -/
abbrev Attributes := List (String × AttributeValue)

namespace Attributes

/-- The keys, in order. -/
def keys (m : Attributes) : List String :=
  m.map Prod.fst

/-- The value of a key. -/
def get? (m : Attributes) (key : String) : Option AttributeValue :=
  m.lookup key

/-- The key has a value. -/
def contains (m : Attributes) (key : String) : Bool :=
  (m.get? key).isSome

/-- The attributes with one more at the end, unless its key is there already. -/
def insert (m : Attributes) (key : String) (value : AttributeValue) : Attributes :=
  if m.contains key then m else m ++ [(key, value)]

theorem insert_of_contains {m : Attributes} {key : String} (h : m.contains key = true)
    (value : AttributeValue) : m.insert key value = m := by
  simp [insert, h]

theorem keys_insert {m : Attributes} {key : String} (h : m.contains key = false)
    (value : AttributeValue) : (m.insert key value).keys = m.keys ++ [key] := by
  simp [insert, h, keys]

theorem contains_eq_true_iff {m : Attributes} {key : String} :
    m.contains key = true ↔ key ∈ m.keys := by
  induction m with
  | nil => simp [contains, get?, keys]
  | cons e m ih =>
    obtain ⟨k, v⟩ := e
    by_cases hk : key = k
    · simp [contains, get?, keys, hk]
    · simp only [contains, get?, keys, List.lookup_cons, List.map_cons, List.mem_cons] at ih ⊢
      simp [hk, beq_eq_false_iff_ne.2 hk, ih]

end Attributes

namespace AttributeValue

mutual

/-- Two values are equal: numbers by their values, and attributes without regard to their order. -/
def same : AttributeValue → AttributeValue → Bool
  | .text a, .text b => a == b
  | .number a, .number b => a.same b
  | .flag a, .flag b => a == b
  | .nested a, .nested b => a.length == b.length && allIn a b
  | _, _ => false

/-- Every attribute of the first list has an equal value in the second. -/
def allIn : List (String × AttributeValue) → Attributes → Bool
  | [], _ => true
  | (key, value) :: rest, m =>
    (match m.get? key with
      | some other => value.same other
      | none => false) && allIn rest m

end

/-- The text of a text value. -/
def text? : AttributeValue → Option String
  | .text s => some s
  | _ => none

/-- The number of a number value. -/
def number? : AttributeValue → Option Number
  | .number x => some x
  | _ => none

/-- The truth value of a flag. -/
def flag? : AttributeValue → Option Bool
  | .flag b => some b
  | _ => none

/-- The attributes of a nested value. -/
def nested? : AttributeValue → Option Attributes
  | .nested m => some m
  | _ => none

end AttributeValue

/-- Two attribute lists are equal without regard to order. -/
def Attributes.same (a b : Attributes) : Bool :=
  a.length == b.length && AttributeValue.allIn a b

end HeaderReflection
