/-!
# TOML values and trees of tables

A TOML text builds its tables bit by bit: headers open them, keys fill them, and both may make
tables on their way. `Toml.Members` is a table under construction, in which every inner table
remembers how it came to be; that decides who may still add to it.
-/

namespace RoleComposition

namespace Toml

/-- The kinds of scalar of which no more than the kind is kept. -/
inductive Kind where
  | integer
  | decimal
  | truth
  | moment
deriving DecidableEq, Repr

end Toml

/-- A TOML value. -/
inductive Toml where
  | text (value : String)
  | scalar (kind : Toml.Kind)
  | array (items : List Toml)
  | table (members : List (String × Toml))
deriving Inhabited, Repr

namespace Toml

/-- How a table came to be: by a header of its own, by the header of a table inside it, or by a
key with dots. -/
inductive Standing where
  | declared
  | implied
  | dotted
deriving DecidableEq, Repr

/-- What a name stands for in a table under construction: a value, which is never added to, a
table, or a series of tables under one header, the newest apart from the earlier ones. -/
inductive Node where
  | value (value : Toml)
  | table (standing : Standing) (members : List (String × Node))
  | series (newest : List (String × Node)) (earlier : List (List (String × Node)))

/-- A table under construction. -/
abbrev Members := List (String × Node)

namespace Members

/-- Puts another node in the place of the one under a name. -/
def replace (name : String) (node : Node) (members : Members) : Members :=
  members.map fun m => if m.1 = name then (name, node) else m

/-- Changes the table at the end of a path. Missing tables on the way are made with the standing
`made`, and a series leads on to its newest table. A dotted path must not pass a table that has a
header of its own. -/
def changeAt (made : Standing) (change : Standing → Members → Option Members) :
    List String → Standing → Members → Option Members
  | [], standing, members => change standing members
  | name :: path, _, members =>
    match members.lookup name with
    | none => do
      let inner ← changeAt made change path made []
      return members ++ [(name, .table made inner)]
    | some (.value _) => none
    | some (.table standing inner) =>
      if made = .dotted ∧ standing = .declared then none
      else do
        let inner ← changeAt made change path standing inner
        return replace name (.table standing inner) members
    | some (.series newest earlier) => do
      let newest ← changeAt made change path .declared newest
      return replace name (.series newest earlier) members

/-- Gives a new name its value, in the table that a dotted path leads to from here. -/
def assign (path : List String) (name : String) (value : Toml) :
    Standing → Members → Option Members :=
  changeAt .dotted
    (fun standing members =>
      if !path.isEmpty ∧ standing ≠ .dotted then none
      else if (members.lookup name).isSome then none
      else some (members ++ [(name, .value value)]))
    path

/-- Opens the table under a header, which has not had a header before. -/
def openTable (path : List String) (name : String) : Members → Option Members :=
  changeAt .implied
    (fun _ members =>
      match members.lookup name with
      | none => some (members ++ [(name, .table .declared [])])
      | some (.table .implied inner) => some (replace name (.table .declared inner) members)
      | some _ => none)
    path .declared

/-- Opens the next table of the series under a header. -/
def openNext (path : List String) (name : String) : Members → Option Members :=
  changeAt .implied
    (fun _ members =>
      match members.lookup name with
      | none => some (members ++ [(name, .series [] [])])
      | some (.series newest earlier) =>
        some (replace name (.series [] (newest :: earlier)) members)
      | some _ => none)
    path .declared

/-- The table of some assignments, none of which undoes another. -/
def ofAssignments (assignments : List ((List String × String) × Toml)) : Option Members :=
  assignments.foldlM (fun members a => assign a.1.1 a.1.2 a.2 .declared members) []

end Members

mutual

/-- The value of a finished node. -/
def Node.finish : Node → Toml
  | .value value => value
  | .table _ members => .table (finishMembers members)
  | .series newest earlier => .array (finishSeries earlier [.table (finishMembers newest)])

/-- The members of a finished table. -/
def finishMembers : List (String × Node) → List (String × Toml)
  | [] => []
  | (name, node) :: members => (name, node.finish) :: finishMembers members

/-- The tables of a finished series in their order, before those that come after them. -/
def finishSeries : List (List (String × Node)) → List Toml → List Toml
  | [], later => later
  | members :: earlier, later => finishSeries earlier (.table (finishMembers members) :: later)

end

/-- A TOML text as far as it is read: its tables, and the header that the next lines belong to. -/
structure Document where
  header : List String := []
  root : Members := []

namespace Document

/-- Goes on under the header of a table. -/
def openTable (d : Document) (path : List String) (name : String) : Option Document := do
  return ⟨path ++ [name], ← d.root.openTable path name⟩

/-- Goes on under the header of a series. -/
def openNext (d : Document) (path : List String) (name : String) : Option Document := do
  return ⟨path ++ [name], ← d.root.openNext path name⟩

/-- Gives a name its value in the table of the header. -/
def assign (d : Document) (path : List String) (name : String) (value : Toml) :
    Option Document := do
  return { d with
    root := ← Members.changeAt .implied (Members.assign path name value) d.header .declared d.root }

/-- The value of a finished text. -/
def finish (d : Document) : Toml := .table (finishMembers d.root)

end Document

end Toml

end RoleComposition
