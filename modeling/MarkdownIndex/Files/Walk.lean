import MarkdownIndex.Files.Tree

/-!
# Walks: every file below a directory

A walk lists the files below a place by the names that lead to them. Links are passed over, or
followed on demand; then a link that leads nowhere or back into a directory that is being walked is
an error.

* `WalkError` — why a walk fails.
* `walkFrom`, `walkEntries` — the walk of a directory and of some of its entries.
* `walk` — the walk from a path, which may be a link itself.
-/

namespace MarkdownIndex.Files

/-- Why a walk fails. -/
inductive WalkError where
  /-- a link leads nowhere -/
  | dangling (e : FileError)
  /-- a link leads to a directory that is being walked -/
  | loop
  /-- the walk goes too deep -/
  | tooDeep
deriving DecidableEq, Repr

mutual

/-- The files below a directory at a place, given the places being walked and the names so far. -/
def walkFrom (top : Entry) (followLinks : Bool) :
    (depth : Nat) → (open_ : List Place) → Place → (names : List FileName) →
      Except WalkError (List (List FileName))
  | 0, _, _, _ => .error .tooDeep
  | depth + 1, open_, place, names =>
    match top.at? place with
    | some (.directory es) => walkEntries top followLinks depth (place :: open_) place names es
    | some (.file _ _) => .ok [names]
    | _ => .ok []
termination_by depth => (depth, 0)

/-- The files that some entries of a directory lead to. -/
def walkEntries (top : Entry) (followLinks : Bool) (depth : Nat) (open_ : List Place)
    (place : Place) (names : List FileName) :
    List (FileName × Entry) → Except WalkError (List (List FileName))
  | [] => .ok []
  | (n, e) :: es => do
    let found ← match e with
      | .file _ _ => .ok [names ++ [n]]
      | .directory _ => walkFrom top followLinks depth open_ (place ++ [n]) (names ++ [n])
      | .link target =>
        if followLinks then
          match follow top false (maxLinks - 1) (stepsFor 4096) (startOf place target)
              (Path.segments target) with
          | .error e => .error (.dangling e)
          | .ok there =>
            if open_.contains there then .error .loop
            else walkFrom top followLinks depth open_ there (names ++ [n])
        else .ok []
    let more ← walkEntries top followLinks depth open_ place names es
    return found ++ more
termination_by es => (depth, es.length + 1)

end

mutual

/-- The number of entries of a tree, its top included. -/
def Entry.size : Entry → Nat
  | .directory es => sizes es + 1
  | _ => 1

/-- The number of entries of some trees. -/
def sizes : List (FileName × Entry) → Nat
  | [] => 0
  | (_, e) :: es => e.size + sizes es

end

/-- A depth that no walk exceeds: between two followed links a walk descends at most through all
directories, and each followed link leads to a directory that is not being walked. -/
def Entry.walkDepth (top : Entry) : Nat := (top.size + 1) * (top.size + 1)

/-- The files below the place that a path leads to, each by the names that lead to it. A path that
leads to a file has that file under an empty list of names, unless the path is itself a link and
links are not followed. -/
def walk (disk : Disk) (followLinks : Bool) (p : Path) :
    Except WalkError (List (List FileName)) :=
  match resolve disk p with
  | .error e => .error (.dangling e)
  | .ok place =>
    match disk.top.at? place, followLinks, isLink disk p with
    | some (.file _ _), false, true => .ok []
    | _, _, _ => walkFrom disk.top followLinks disk.top.walkDepth [] place []

end MarkdownIndex.Files
