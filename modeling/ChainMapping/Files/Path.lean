import ChainMapping.Text.Search

/-!
# Paths

A path is kept as it was written and compared by its parts: repeated separators, a separator at the
end and `.` between other parts make no difference.  The order of paths is the order of their parts,
so `b/x` comes before `b-`.
-/

namespace ChainMapping

/-- One part of a path. -/
inductive PathPart where
  | root
  | here
  | up
  | name (text : String)
  deriving DecidableEq, Repr

namespace PathPart

def rank : PathPart → Nat
  | root => 0
  | here => 1
  | up => 2
  | name _ => 3

def compare : PathPart → PathPart → Ordering
  | name a, name b => Ord.compare a b
  | a, b => Ord.compare a.rank b.rank

end PathPart

/-- A path as written. -/
structure Path where
  text : String
  deriving DecidableEq, Repr, Inhabited

namespace Path

/-- A path that begins at the root of the file system. -/
def isAbsolute (p : Path) : Bool := p.text.toList.head? = some '/'

/-- What stands between the separators, some of it perhaps empty. -/
def pieces (p : Path) : List String := (Text.splitAll '/' p.text.toList).map String.ofList

/-- The parts that separators divide a path into.  A `.` counts at the beginning of a relative path
only. -/
def parts (p : Path) : List PathPart :=
  let start : List PathPart :=
    if p.isAbsolute then [.root] else if p.pieces.head? = some "." then [.here] else []
  let rest := p.pieces.filterMap fun piece =>
    if piece = "" || piece = "." then none
    else if piece = ".." then some .up
    else some (PathPart.name piece)
  start ++ rest

/-- Compares lists of parts from the left. -/
def compareParts : List PathPart → List PathPart → Ordering
  | [], [] => .eq
  | [], _ :: _ => .lt
  | _ :: _, [] => .gt
  | a :: as, b :: bs => (a.compare b).then (compareParts as bs)

def compare (p q : Path) : Ordering := compareParts p.parts q.parts

/-- A path relative to another one. -/
def join (p : Path) (name : String) : Path :=
  if name.toList.head? = some '/' then ⟨name⟩
  else if p.text = "" || p.text.toList.getLast? = some '/' then ⟨p.text ++ name⟩
  else ⟨p.text ++ "/" ++ name⟩

/-- The last part of a path if it is a name. -/
def fileName? (p : Path) : Option String :=
  match p.parts.getLast? with
  | some (.name text) => some text
  | _ => none

/-- What stands after the last dot of the file name, if anything stands before it. -/
def extension? (p : Path) : Option String := do
  let name ← p.fileName?
  let pieces := Text.splitAll '.' name.toList
  if pieces.length < 2 || pieces.dropLast = [[]] then none
  else pieces.getLast?.map String.ofList

end Path
end ChainMapping
