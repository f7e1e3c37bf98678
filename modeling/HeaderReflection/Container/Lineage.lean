import HeaderReflection.Container.Basic
import HeaderReflection.Fault

/-!
# Lineage

The bases of containers are looked up by name among the containers of all files. The ancestors of a
container are its bases in order, each followed by its own ancestors; one that is reached in two
ways is listed twice. The ancestors of a container are found once and remembered by its place.
-/

namespace HeaderReflection

open Text (Position)

/-- A container with its ancestors, nearest first. -/
structure Resolved where
  container : Container
  ancestors : List Container

namespace Resolved

/-- The names of the ancestors, each at its first place. -/
def ancestorNames (r : Resolved) : List String :=
  (r.ancestors.map (·.name)).eraseDups

/-- The container or one of its ancestors has this name. -/
def isA (r : Resolved) (name : String) : Bool :=
  r.container.name = name || r.ancestors.any (·.name = name)

end Resolved

namespace Lineage

/-- The containers that a base name can mean, with their places. Enums are no bases. -/
def candidates (cs : List Container) (name : String) : List (Container × Nat) :=
  cs.zipIdx.filter fun (c, _) => c.kind ≠ .enum && c.name = name

/-- What a base of a container means: a container with its place, or nothing if it is external. -/
def lookup (cs : List Container) (external : List String) (owner : Container) (base : TypeRef) :
    Except Fault (Option (Container × Nat)) :=
  match candidates cs base.baseName with
  | [target] => .ok (some target)
  | [] =>
    if external.contains base.baseName || external.contains base.name then .ok none
    else .error (.unknownBase owner.fileId owner.position owner.name base.name)
  | several =>
    .error (.ambiguousBase owner.fileId owner.position owner.name base.name
      (several.map fun (c, _) => c.identity))

/-- The fault for a base that leads back to a container on the path. -/
def cycleFault (path : List (Container × Nat)) (target : Container) (place : Nat) : Fault :=
  let names := (path.dropWhile fun (_, i) => i ≠ place).map fun (c, _) => c.name
  .cyclicInheritance target.fileId target.position (names ++ [target.name])

/-- The ancestors of the containers that are finished, by their places. -/
abbrev Memo := List (Nat × List Container)

/-- The ancestors of the container at a place: those that are remembered or else, from then on
remembered, those that are found. -/
def Memo.recall (memo : Memo) (place : Nat)
    (find : Memo → Except Fault (List Container × Memo)) : Except Fault (List Container × Memo) :=
  match memo.lookup place with
  | some up => .ok (up, memo)
  | none => (find memo).map fun (up, memo) => (up, (place, up) :: memo)

/-- The ancestors through the given bases of the last container on the path. The places that are
not on the path are free; a base whose place is not free closes a cycle. -/
def ancestorsFrom (cs : List Container) (external : List String) (free : List Nat)
    (path : List (Container × Nat)) (owner : Container) (memo : Memo) :
    List TypeRef → Except Fault (List Container × Memo)
  | [] => .ok ([], memo)
  | base :: rest => do
    match ← lookup cs external owner base with
    | none => ancestorsFrom cs external free path owner memo rest
    | some (target, place) =>
      if _h : place ∈ free then
        let (up, memo) ← memo.recall place fun memo =>
          ancestorsFrom cs external (free.erase place) (path ++ [(target, place)]) target memo
            target.bases
        let (more, memo) ← ancestorsFrom cs external free path owner memo rest
        .ok (target :: up ++ more, memo)
      else .error (cycleFault path target place)
termination_by bases => (free.length, bases.length)
decreasing_by
  · exact Prod.Lex.right _ (by simp)
  · have := List.length_erase_of_mem _h
    have := List.length_pos_of_mem _h
    exact Prod.Lex.left _ _ (by omega)
  · exact Prod.Lex.right _ (by simp)

/-- The ancestors of the container at a place. -/
def ancestors (cs : List Container) (external : List String) (memo : Memo) (c : Container)
    (place : Nat) : Except Fault (List Container × Memo) :=
  memo.recall place fun memo =>
    ancestorsFrom cs external ((List.range cs.length).erase place) [(c, place)] c memo c.bases

/-- Containers with their places, resolved in order up to the first fault. -/
def resolveFrom (cs : List Container) (external : List String) (memo : Memo) :
    List (Container × Nat) → Except Fault (List Resolved)
  | [] => .ok []
  | (c, place) :: rest => do
    let (up, memo) ← ancestors cs external memo c place
    let more ← resolveFrom cs external memo rest
    .ok (⟨c, up⟩ :: more)

end Lineage

/-- The containers of all files with their ancestors, or the first fault. -/
def resolve (cs : List Container) (external : List String) : Except Fault (List Resolved) :=
  Lineage.resolveFrom cs external [] cs.zipIdx

end HeaderReflection
