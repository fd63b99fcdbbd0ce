/-!
# Types

A type has a name, a kind and, for a container, the types of what it holds.
-/

namespace ChainMapping

inductive Kind where
  | scalar
  | object
  /-- a type whose fields are those of the concrete type chosen for it -/
  | abstract
  | list
  | set
  | queue
  | array
  | map
  deriving DecidableEq, Repr

namespace Kind

def isCollection : Kind → Bool
  | list | set | queue | array => true
  | _ => false

def isMap : Kind → Bool
  | map => true
  | _ => false

def isContainer (k : Kind) : Bool := k.isCollection || k.isMap

/-- The kind as messages name it. -/
def label : Kind → String
  | scalar => "scalar"
  | object => "object"
  | abstract => "abstract"
  | list => "list"
  | set => "set"
  | queue => "queue"
  | array => "array"
  | map => "map"

/-- The kind as documents name it. -/
def title : Kind → String
  | scalar => "Scalar"
  | object => "Object"
  | abstract => "Abstract"
  | list => "List"
  | set => "Set"
  | queue => "Queue"
  | array => "Array"
  | map => "Map"

def all : List Kind := [scalar, object, abstract, list, set, queue, array, map]

def ofTitle? (text : String) : Option Kind := all.find? (·.title == text)

/-- Names that denote containers. -/
def containerNames : List (String × Kind) :=
  [("List", list), ("Vec", list), ("ArrayList", list), ("LinkedList", list),
   ("Set", set), ("HashSet", set), ("BTreeSet", set), ("TreeSet", set),
   ("Queue", queue), ("Deque", queue), ("VecDeque", queue),
   ("Map", map), ("HashMap", map), ("BTreeMap", map), ("TreeMap", map)]

def ofContainerName? (name : String) : Option Kind := containerNames.lookup name

/-- How many types a container of the kind holds. -/
def arity (k : Kind) : Nat := if k = map then 2 else 1

/-- Names of the types without parts. -/
def scalarNames : List String :=
  ["String", "Char", "Bool", "Boolean", "Byte", "Short", "Int", "Integer", "Long", "Float",
   "Double", "Decimal", "Date", "DateTime", "Uuid"]

end Kind

/-- A type as declared. -/
structure TypeRef where
  name : String
  kind : Kind
  args : List TypeRef := []
  deriving Repr

namespace TypeRef

instance : Inhabited TypeRef := ⟨⟨"", .scalar, []⟩⟩

mutual

def decEq : (a b : TypeRef) → Decidable (a = b)
  | ⟨name, kind, args⟩, ⟨name', kind', args'⟩ =>
    if hname : name = name' then
      if hkind : kind = kind' then
        match decEqList args args' with
        | isTrue hargs => isTrue (by rw [hname, hkind, hargs])
        | isFalse hargs => isFalse fun h => hargs (TypeRef.mk.inj h).2.2
      else isFalse fun h => hkind (TypeRef.mk.inj h).2.1
    else isFalse fun h => hname (TypeRef.mk.inj h).1

def decEqList : (as bs : List TypeRef) → Decidable (as = bs)
  | [], [] => isTrue rfl
  | [], _ :: _ => isFalse (by simp)
  | _ :: _, [] => isFalse (by simp)
  | a :: as, b :: bs =>
    match decEq a b with
    | isFalse h => isFalse fun e => h (List.cons.inj e).1
    | isTrue h =>
      match decEqList as bs with
      | isTrue hs => isTrue (by rw [h, hs])
      | isFalse hs => isFalse fun e => hs (List.cons.inj e).2

end

instance : DecidableEq TypeRef := decEq

def isCollection (t : TypeRef) : Bool := t.kind.isCollection

def isMap (t : TypeRef) : Bool := t.kind.isMap

def isContainer (t : TypeRef) : Bool := t.kind.isContainer

def arrayOf (component : TypeRef) : TypeRef := ⟨"Array", .array, [component]⟩

mutual

/-- The type as an expression: `Item[]` for an array, `Map<String, Item>` for other containers. -/
def display : TypeRef → String
  | ⟨_, .array, component :: _⟩ => component.display ++ "[]"
  | ⟨name, _, []⟩ => name
  | ⟨name, _, first :: rest⟩ => name ++ "<" ++ first.display ++ displayRest rest ++ ">"

def displayRest : List TypeRef → String
  | [] => ""
  | t :: rest => ", " ++ t.display ++ displayRest rest

end

end TypeRef

/-- A field with the type that owns it. -/
structure FieldType where
  owner : String
  name : String
  declared : TypeRef
  deriving DecidableEq, Repr

end ChainMapping
