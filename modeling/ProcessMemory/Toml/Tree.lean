import ProcessMemory.Datum

/-!
# TOML tables

A document fills a tree of tables from top to bottom. Headers and dotted keys both make tables that
are not yet there, and may add to some that are: what is open to whom is noted in the tree.
-/
namespace ProcessMemory.Toml

/-- A dotted key: the tables on the way and the name in the last. -/
structure Path where
  parents : List String
  name : String

def Path.all (p : Path) : List String := p.parents ++ [p.name]

inductive Tree where
  /-- A value, to which nothing is added. -/
  | value (d : Datum)
  /-- A table; `implicit` until a header names it, and `dotted` where a dotted key made it. -/
  | table (implicit dotted : Bool) (entries : List (String × Tree))
  /-- Tables under one name; the last is the open one. -/
  | rows (tables : List Tree)

namespace Tree

def empty : Tree := .table false false []

def replace (key : String) (t : Tree) (entries : List (String × Tree)) : List (String × Tree) :=
  entries.map fun entry => if entry.1 = key then (key, t) else entry

/-- Changes the table that keys lead to. Tables on the way are made where there are none; those that
a header has named are closed to dotted keys. -/
def at? (dotted : Bool) : List String → (Tree → Option Tree) → Tree → Option Tree
  | [], f, t => f t
  | key :: path, f, .table implicit made entries =>
    match entries.lookup key with
    | none => do
      let child ← at? dotted path f (.table true dotted [])
      return .table implicit made (entries ++ [(key, child)])
    | some (.value _) => none
    | some (.rows tables) =>
      match tables.getLast? with
      | none => none
      | some last => do
        let child ← at? dotted path f last
        return .table implicit made (replace key (.rows (tables.dropLast ++ [child])) entries)
    | some (.table childImplicit childMade children) =>
      if dotted && !childImplicit then none
      else do
        let child ← at? dotted path f (.table childImplicit childMade children)
        return .table implicit made (replace key child entries)
  | _ :: _, _, _ => none

/-- Adds a value under a dotted key. The last table on the way must be one that dotted keys made,
unless there are none on the way. -/
def put? (p : Path) (d : Datum) (t : Tree) : Option Tree :=
  t.at? true p.parents
    (fun
      | .table implicit dotted entries =>
        if dotted == p.parents.isEmpty || (entries.lookup p.name).isSome then none
        else some (.table implicit dotted (entries ++ [(p.name, .value d)]))
      | _ => none)

/-- Opens the table that a header names: a new one, or one that only headers below it have made. -/
def openTable? (p : Path) (t : Tree) : Option Tree :=
  t.at? false p.parents
    (fun
      | .table implicit dotted entries =>
        match entries.lookup p.name with
        | none => some (.table implicit dotted (entries ++ [(p.name, empty)]))
        | some (.table true false children) =>
          some (.table implicit dotted (replace p.name (.table false false children) entries))
        | some _ => none
      | _ => none)

/-- Opens a further table under the name of a double header. -/
def openRow? (p : Path) (t : Tree) : Option Tree :=
  t.at? false p.parents
    (fun
      | .table implicit dotted entries =>
        match entries.lookup p.name with
        | none => some (.table implicit dotted (entries ++ [(p.name, .rows [empty])]))
        | some (.rows tables) =>
          some (.table implicit dotted (replace p.name (.rows (tables ++ [empty])) entries))
        | some _ => none
      | _ => none)

mutual

def toDatum : Tree → Datum
  | .value d => d
  | .table _ _ entries => .table (entriesToData entries)
  | .rows tables => .list (toData tables)

def toData : List Tree → List Datum
  | [] => []
  | t :: rest => toDatum t :: toData rest

def entriesToData : List (String × Tree) → List (Option String × Datum)
  | [] => []
  | (key, t) :: rest => (some key, toDatum t) :: entriesToData rest

end

end Tree
end ProcessMemory.Toml
