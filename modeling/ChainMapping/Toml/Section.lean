import ChainMapping.Document.Basic

/-!
# TOML tables under construction

A TOML text says in many places what a table holds: in its own section, in sections of its parts,
and in dotted keys.  A section remembers how it came about, because a table may be opened by a
header once only, and only if neither a header nor a dotted key has defined it before.
-/

namespace ChainMapping
namespace Toml

/-- What stands under a key while a text is read. -/
inductive Item where
  | value (document : Document)
  /-- a table; `opened` by a header of its own, or made by a `dotted` key -/
  | table (opened dotted : Bool) (members : List (String × Item))
  /-- the tables of repeated `[[…]]` headers, in order -/
  | tables (all : List (List (String × Item)))

/-- A table that is being filled. -/
structure Section where
  opened : Bool
  dotted : Bool
  members : List (String × Item)

namespace Section

def empty : Section := ⟨true, false, []⟩

/-- Puts an item in the place of one with the same key, or at the end. -/
def setMember (key : String) (item : Item) : List (String × Item) → List (String × Item)
  | [] => [(key, item)]
  | (other, kept) :: rest =>
    if other = key then (key, item) :: rest else (other, kept) :: setMember key item rest

/-- Changes the table at the end of a path of keys, making the tables on the way that do not exist.
A path of a dotted key may not pass through a table that a header has opened. -/
def change (dotted : Bool) (f : Section → Except ReadError Section) :
    List String → Section → Except ReadError Section
  | [], s => f s
  | key :: path, s => do
    match s.members.lookup key with
    | none =>
      let sub ← change dotted f path ⟨false, dotted, []⟩
      return { s with members := s.members ++ [(key, .table sub.opened sub.dotted sub.members)] }
    | some (.value _) => throw ⟨"key of a value used as a table"⟩
    | some (.tables all) =>
      let sub ← change dotted f path ⟨true, false, all.getLastD []⟩
      return { s with members := setMember key (.tables (all.dropLast ++ [sub.members])) s.members }
    | some (.table opened wasDotted members) =>
      if dotted && opened then throw ⟨"table defined twice"⟩
      let sub ← change dotted f path ⟨opened, wasDotted, members⟩
      let changed := Item.table sub.opened sub.dotted sub.members
      return { s with members := setMember key changed s.members }

/-- Adds a value under a key that may be dotted. -/
def insertValue (s : Section) (path : List String) (key : String) (value : Document) :
    Except ReadError Section :=
  change true (fun t => do
    if t.dotted == path.isEmpty then throw ⟨"table defined twice"⟩
    if (t.members.lookup key).isSome then throw ⟨"duplicate key"⟩
    return { t with members := t.members ++ [(key, .value value)] }) path s

/-- Takes away the table that a header opens, if a longer header made it before: it is filled and
put back. -/
def openTable (s : Section) (path : List String) (key : String) :
    Except ReadError (Section × List (String × Item)) := do
  let root ← change false pure path s
  let found ← lookupPath path root
  match found.members.lookup key with
  | none => return (root, [])
  | some (.table false false members) =>
    let root ← change false
      (fun t => pure { t with members := t.members.filter (·.1 != key) }) path root
    return (root, members)
  | some _ => throw ⟨"table defined twice"⟩
where
  /-- the table at the end of a path that exists -/
  lookupPath : List String → Section → Except ReadError Section
    | [], t => pure t
    | key :: path, t =>
      match t.members.lookup key with
      | some (.table opened dotted members) => lookupPath path ⟨opened, dotted, members⟩
      | some (.tables all) => lookupPath path ⟨true, false, all.getLastD []⟩
      | _ => throw ⟨"key of a value used as a table"⟩

/-- Makes sure that a key can hold repeated tables. -/
def openTables (s : Section) (path : List String) (key : String) : Except ReadError Section :=
  change false (fun t =>
    match t.members.lookup key with
    | none => pure { t with members := t.members ++ [(key, .tables [])] }
    | some (.tables _) => pure t
    | some _ => throw ⟨"table defined twice"⟩) path s

/-- Puts back a table that a header has opened. -/
def closeTable (s : Section) (path : List String) (key : String) (members : List (String × Item)) :
    Except ReadError Section :=
  change false (fun t =>
    match t.members.lookup key with
    | none => pure { t with members := t.members ++ [(key, .table true false members)] }
    | some _ => throw ⟨"table defined twice"⟩) path s

/-- Adds one of the repeated tables of a key. -/
def closeTables (s : Section) (path : List String) (key : String) (members : List (String × Item)) :
    Except ReadError Section :=
  change false (fun t =>
    match t.members.lookup key with
    | some (.tables all) =>
      pure { t with members := setMember key (.tables (all ++ [members])) t.members }
    | _ => throw ⟨"table defined twice"⟩) path s

end Section

mutual

/-- The document that an item stands for. -/
def Item.document : Item → Document
  | .value d => d
  | .table _ _ members => .table (documentMembers members)
  | .tables all => .list (documentTables all)

def documentMembers : List (String × Item) → List (String × Document)
  | [] => []
  | (key, item) :: rest => (key, item.document) :: documentMembers rest

def documentTables : List (List (String × Item)) → List Document
  | [] => []
  | members :: rest => .table (documentMembers members) :: documentTables rest

end

end Toml
end ChainMapping
