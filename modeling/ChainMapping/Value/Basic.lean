import ChainMapping.Document.Basic
import ChainMapping.Ordered
import ChainMapping.Text.Escaped
import ChainMapping.Text.Search

/-!
# Live values

A value is a scalar or a handle to an instance in a store.  Two handles are the same instance only
if they have the same number, so one instance can be reached in several ways, and objects can reach
themselves: their fields are set after they exist.  What a sequence or a map holds is fixed when it
is made.
-/

namespace ChainMapping

inductive Value where
  | null
  | bool (value : Bool)
  | int (value : Int)
  | float (value : Float)
  | text (value : String)
  | object (id : Nat)
  /-- the contents of a list, set, queue or array -/
  | sequence (id : Nat)
  | map (id : Nat)
  deriving Inhabited

/-- An object: the name of its type and the fields that are set, in the order they were first set.
-/
structure ObjectInstance where
  typeName : String
  fields : List (String × Value) := []
  deriving Inhabited

/-- All instances, numbered by kind in the order of creation. -/
structure Store where
  objects : Array ObjectInstance := #[]
  sequences : Array (List Value) := #[]
  maps : Array (List (Value × Value)) := #[]

namespace Value

def isNull : Value → Bool
  | null => true
  | _ => false

/-- The kind of a value as messages name it. -/
def kind : Value → String
  | null => "null"
  | bool _ => "bool"
  | int _ => "int"
  | float _ => "float"
  | text _ => "text"
  | object _ => "object"
  | sequence _ => "sequence"
  | map _ => "map"

def text? : Value → Option String
  | text s => some s
  | _ => none

def int? : Value → Option Int
  | int n => some n
  | _ => none

def object? : Value → Option Nat
  | object id => some id
  | _ => none

/-- A value with an identity. -/
def isHandle : Value → Bool
  | object _ | sequence _ | map _ => true
  | _ => false

/-- Both are handles to one instance. -/
def isSame : Value → Value → Bool
  | object a, object b => a == b
  | sequence a, sequence b => a == b
  | map a, map b => a == b
  | _, _ => false

end Value

namespace ObjectInstance

def get? (o : ObjectInstance) (field : String) : Option Value := o.fields.lookup field

def set (o : ObjectInstance) (field : String) (value : Value) : ObjectInstance :=
  { o with fields := Ordered.put field value o.fields }

def fieldNames (o : ObjectInstance) : List String := Ordered.keys o.fields

/-- The object for a log: its type and the names of its fields.  The values are left out, because
they may lead back to it. -/
def describe (o : ObjectInstance) : String :=
  Text.structured "ObjectValue"
    [("type_name", Text.escaped o.typeName),
     ("fields", "[" ++ Text.join ", " (o.fieldNames.map Text.escaped) ++ "]")]

end ObjectInstance

namespace Store

def addObject (s : Store) (o : ObjectInstance) : Value × Store :=
  (.object s.objects.size, { s with objects := s.objects.push o })

def addSequence (s : Store) (items : List Value) : Value × Store :=
  (.sequence s.sequences.size, { s with sequences := s.sequences.push items })

def addMap (s : Store) (entries : List (Value × Value)) : Value × Store :=
  (.map s.maps.size, { s with maps := s.maps.push entries })

def object? (s : Store) (id : Nat) : Option ObjectInstance := s.objects[id]?

def items (s : Store) (id : Nat) : List Value := s.sequences[id]?.getD []

def entries (s : Store) (id : Nat) : List (Value × Value) := s.maps[id]?.getD []

/-- Sets a field of an object. -/
def setField (s : Store) (id : Nat) (field : String) (value : Value) : Store :=
  { s with objects := s.objects.modify id (·.set field value) }

/-- The name of the type of an object. -/
def typeName? (s : Store) : Value → Option String
  | .object id => (s.object? id).map (·.typeName)
  | _ => none

/-- How many elements a sequence has, or entries a map. -/
def length? (s : Store) : Value → Option Nat
  | .sequence id => some (s.items id).length
  | .map id => some (s.entries id).length
  | _ => none

/-- A sequence or map without contents. -/
def isEmptyContainer (s : Store) (v : Value) : Bool := s.length? v == some 0

/-- A short document: scalars as they are, handles by their type or size. -/
def summary (s : Store) : Value → Document
  | .null => .null
  | .bool b => .bool b
  | .int n => .int n
  | .float x => if x.isFinite then .float x else .null
  | .text t => .text t
  | .object id => .table [("type", Document.ofOption .text (s.typeName? (.object id)))]
  | .sequence id => .table [("sequence", .ofNat (s.items id).length)]
  | .map id => .table [("map", .ofNat (s.entries id).length)]

end Store
end ChainMapping
