import ChainMapping.Document.Basic
import ChainMapping.Ordered

/-!
# Documents with a fixed shape

A record is a table with known members.  Members that the reader does not know are passed over, and
a known member may stand only once.  A list is taken for a record too, position by position, and may
be shorter than the record; only TOML lets it be longer.
-/

namespace ChainMapping

/-- The format that a document was written in. -/
inductive Format where
  | json
  | toml
  deriving DecidableEq, Repr

namespace Document

/-- The values of the named members of a table. -/
def select (names : List String) (members : List (String × Document)) :
    Except ReadError (List (Option Document)) :=
  names.mapM fun name =>
    match members.filter (·.1 == name) with
    | [] => .ok none
    | [(_, value)] => .ok (some value)
    | _ => .error ⟨"repeated member"⟩

/-- The values of the members of a record, in the order of their names. -/
def record (format : Format) (names : List String) (d : Document) :
    Except ReadError (List (Option Document)) :=
  match d.members?, d with
  | some members, _ => select names members
  | none, list items =>
    if format = .json && names.length < items.length then .error ⟨"too many items"⟩
    else .ok ((items.map some ++ List.replicate names.length none).take names.length)
  | none, _ => .error ⟨"table expected"⟩

def readText : Document → Except ReadError String
  | text s => .ok s
  | _ => .error ⟨"text expected"⟩

def readBool : Document → Except ReadError Bool
  | bool b => .ok b
  | _ => .error ⟨"truth value expected"⟩

def readList {α : Type} (f : Document → Except ReadError α) : Document → Except ReadError (List α)
  | list items => items.mapM f
  | _ => .error ⟨"list expected"⟩

/-- A table with arbitrary keys; a repeated key keeps its first place and its last value. -/
def readTable {α : Type} (f : Document → Except ReadError α) :
    Document → Except ReadError (List (String × α)) := fun d =>
  match d.members? with
  | some members => do
    let read ← members.mapM fun (name, value) => do return (name, ← f value)
    return Ordered.ofList read
  | none => .error ⟨"table expected"⟩

/-- What stands beside a word that is written as the name of a member: null in JSON, an empty list
or table in TOML. -/
def isNothing : Format → Document → Bool
  | .json, null => true
  | .toml, list [] => true
  | .toml, table [] => true
  | _, _ => false

/-- One of a fixed set of words, alone or as the only member of a table with nothing beside it. -/
def readWord {α : Type} (format : Format) (ofLabel? : String → Option α) (d : Document) :
    Except ReadError α :=
  let word? := match d with
    | text word => some word
    | table [(word, value)] => if isNothing format value then some word else none
    | _ => none
  match word?.bind ofLabel? with
  | some a => .ok a
  | none => .error ⟨"word expected"⟩

/-- A member that must be there. -/
def required {α : Type} (f : Document → Except ReadError α) : Option Document → Except ReadError α
  | some d => f d
  | none => .error ⟨"missing member"⟩

/-- A member that may be absent or null. -/
def optional {α : Type} (f : Document → Except ReadError α) :
    Option Document → Except ReadError (Option α)
  | none => .ok none
  | some null => .ok none
  | some d => do return some (← f d)

/-- A member with a default for its absence. -/
def withDefault {α : Type} (default : α) (f : Document → Except ReadError α) :
    Option Document → Except ReadError α
  | some d => f d
  | none => .ok default

end Document
end ChainMapping
