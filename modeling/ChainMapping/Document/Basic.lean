/-!
# Documents

The tree of values that a JSON or TOML text denotes.  Members of a table stay in the order of the
text, repetitions included, because readers of different kinds disagree about them: a schema keeps
the order of the text, and a plain document is sorted by member name with the last repetition
winning (`Document.sorted`).
-/

namespace ChainMapping

/-- A value written in JSON or TOML. -/
inductive Document where
  | null
  | bool (value : Bool)
  | int (value : Int)
  | float (value : Float)
  | text (value : String)
  /-- a date, a time or both in canonical form, which only TOML has -/
  | moment (written : String)
  /-- a JSON value with half a surrogate pair in one of its strings: it can be passed over, but no
  reader takes it -/
  | unreadable
  | list (items : List Document)
  | table (members : List (String × Document))
  deriving Inhabited

namespace Document

/-- Puts a member into a list of members sorted by name, in place of one of that name. -/
def insertMember {α : Type} (name : String) (value : α) :
    List (String × α) → List (String × α)
  | [] => [(name, value)]
  | (other, kept) :: rest =>
    if name = other then (name, value) :: rest
    else if name < other then (name, value) :: (other, kept) :: rest
    else (other, kept) :: insertMember name value rest

/-- Members sorted by name, the last of each name. -/
def sortMembers {α : Type} (members : List (String × α)) : List (String × α) :=
  members.foldl (fun sorted (name, value) => insertMember name value sorted) []

mutual

/-- The document with the members of every table sorted by name and free of repetitions. -/
def sorted : Document → Document
  | list items => list (sortedItems items)
  | table members => table (sortMembers (sortedMembers members))
  | d => d

def sortedItems : List Document → List Document
  | [] => []
  | item :: rest => item.sorted :: sortedItems rest

def sortedMembers : List (String × Document) → List (String × Document)
  | [] => []
  | (name, value) :: rest => (name, value.sorted) :: sortedMembers rest

end

mutual

/-- How deep lists and tables are nested. -/
def depth : Document → Nat
  | list items => depthItems items + 1
  | table members => depthMembers members + 1
  | _ => 0

def depthItems : List Document → Nat
  | [] => 0
  | item :: rest => max item.depth (depthItems rest)

def depthMembers : List (String × Document) → Nat
  | [] => 0
  | (_, value) :: rest => max value.depth (depthMembers rest)

end

mutual

/-- Every number of the document is finite and nothing in it is unreadable. -/
def isPlain : Document → Bool
  | float x => x.isFinite
  | unreadable => false
  | list items => isPlainItems items
  | table members => isPlainMembers members
  | _ => true

def isPlainItems : List Document → Bool
  | [] => true
  | item :: rest => item.isPlain && isPlainItems rest

def isPlainMembers : List (String × Document) → Bool
  | [] => true
  | (_, value) :: rest => value.isPlain && isPlainMembers rest

end

/-- The name of the one member of a moment that is taken for a table. -/
def momentKey : String := "$__toml_private_datetime"

/-- The members of a table.  A moment counts as a table of its own text. -/
def members? : Document → Option (List (String × Document))
  | table members => some members
  | moment written => some [(momentKey, text written)]
  | _ => none

/-- The member of a table with a name. -/
def member? : Document → String → Option Document
  | table members, name => members.lookup name
  | _, _ => none

def text? : Document → Option String
  | text s => some s
  | _ => none

def bool? : Document → Option Bool
  | bool b => some b
  | _ => none

def int? : Document → Option Int
  | int n => some n
  | _ => none

def list? : Document → Option (List Document)
  | list items => some items
  | _ => none

def isNull : Document → Bool
  | null => true
  | _ => false

/-- A count as a document. -/
def ofNat (n : Nat) : Document := int n

/-- A value or null. -/
def ofOption {α : Type} (f : α → Document) : Option α → Document
  | none => null
  | some a => f a

def texts (items : List String) : Document := list (items.map text)

end Document

/-- Why a text does not denote the document that was asked for. -/
structure ReadError where
  reason : String
  deriving DecidableEq, Repr

end ChainMapping
