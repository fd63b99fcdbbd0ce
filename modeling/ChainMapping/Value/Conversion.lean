import ChainMapping.Decimal.Reading
import ChainMapping.Index.Error
import ChainMapping.Schema.Basic
import ChainMapping.Value.Basic

/-!
# Documents as live values

A document becomes a value under the guidance of a declared type and the schema.  Objects take the
fields that their type declares and the document has; a member named `$type` says which type an
object really has, and an abstract type without one gives way to its configured concrete type.

Where no type is known, lists become sequences and tables become maps with text keys.

A document is first turned into a conversion, which waits for the type and the place of the value.
That way the recursion follows the document, although the fields of an object are visited in the
order in which its type declares them.
-/

namespace ChainMapping

/-- Makes a value in a store, unless the document does not fit. -/
abbrev Making := StateT Store (Except IndexingError)

/-- What becomes of a document once its type, if any, and its place are known. -/
abbrev Conversion := Option TypeRef → (place : String) → Making Value

namespace Conversion

/-- The member that names the type of an object. -/
def typeKey : String := "$type"

def smallest : Int := -9223372036854775808

def largest : Int := 9223372036854775807

/-- A whole number in the range of the integers. -/
def int? : Document → Option Int
  | .int n => if smallest ≤ n && n ≤ largest then some n else none
  | _ => none

/-- Any number as a float. -/
def float? : Document → Option Float
  | .int n => some (Decimal.toFloat (n < 0) n.natAbs 0)
  | .float x => some x
  | _ => none

/-- What a document is, for messages. -/
def found : Document → String
  | .null | .unreadable => "null"
  | .bool _ => "boolean"
  | .int _ | .float _ => "number"
  | .text _ | .moment _ => "string"
  | .list _ => "array"
  | .table _ => "object"

def mismatch {α : Type} (place expected : String) (d : Document) : Making α :=
  throw (.conversion place expected (found d))

/-- A document without parts as a value of no particular type. -/
def plain : Document → Value
  | .null => .null
  | .bool b => .bool b
  | .int n =>
    match int? (.int n) with
    | some n => .int n
    | none => .float (Decimal.toFloat (n < 0) n.natAbs 0)
  | .float x => .float x
  | .text s => .text s
  | .moment s => .text s
  | .list _ | .table _ | .unreadable => .null

def integerNames : List String := ["Byte", "Short", "Int", "Integer", "Long"]

def textNames : List String := ["String", "Char", "Date", "DateTime", "Uuid"]

/-- A document as a value of a scalar type. -/
def scalar? (name : String) (d : Document) : Option Value :=
  if name = "Bool" || name = "Boolean" then d.bool?.map .bool
  else if integerNames.contains name then (int? d).map .int
  else if name = "Float" || name = "Double" then (float? d).map .float
  else if name = "Decimal" then
    ((float? d).map Value.float).orElse fun _ => d.text?.map .text
  else if textNames.contains name then d.text?.map .text
  else
    match d with
    | .list _ | .table _ => none
    | d => some (plain d)

/-- A sign, if any, and at least one digit, in the range of the integers. -/
def parseInt? (text : String) : Option Int :=
  let (negative, digits) := match text.toList with
    | '-' :: rest => (true, rest)
    | '+' :: rest => (false, rest)
    | cs => (false, cs)
  if digits.isEmpty || !digits.all Text.isDigit then none
  else
    let n : Int := Text.digitsValue digits
    int? (.int (if negative then -n else n))

/-- The key of a map entry; member names are text, so integer keys are read back. -/
def key (type : Option TypeRef) (name place : String) : Making Value :=
  match type with
  | some type =>
    if integerNames.contains type.name then
      match parseInt? name with
      | some n => return .int n
      | none => throw (.conversion place type.name name)
    else return .text name
  | none => return .text name

def addSequence (items : List Value) : Making Value := modifyGet (·.addSequence items)

def addMap (entries : List (Value × Value)) : Making Value := modifyGet (·.addMap entries)

def addObject (o : ObjectInstance) : Making Value := modifyGet (·.addObject o)

/-- The elements of a sequence from a position on. -/
def items (element : Option TypeRef) (place : String) : Nat → List Conversion → Making (List Value)
  | _, [] => return []
  | i, item :: rest => do
    let value ← item element s!"{place}[{i}]"
    return value :: (← items element place (i + 1) rest)

/-- The entries of a map. -/
def entries (keyType valueType : Option TypeRef) (place : String) :
    List (String × Conversion) → Making (List (Value × Value))
  | [] => return []
  | (name, member) :: rest => do
    let entryPlace := s!"{place}[{name}]"
    let k ← key keyType name entryPlace
    let v ← member valueType entryPlace
    return (k, v) :: (← entries keyType valueType place rest)

/-- The fields of an object: those declared ones that have a member, in the order declared. -/
def fields (members : List (String × Conversion)) (place : String) :
    List (String × TypeRef) → Making (List (String × Value))
  | [] => return []
  | (name, type) :: rest =>
    match members.lookup name with
    | none => fields members place rest
    | some member => do
      let value ← member (some type) s!"{place}.{name}"
      return (name, value) :: (← fields members place rest)

/-- The type of an object: the one it names, else the configured one of an abstract type. -/
def objectType (schema : Schema) (declared : TypeRef) (named : Option String) (place : String) :
    Making String :=
  match named with
  | some name => return name
  | none =>
    if declared.kind = .abstract then
      match schema.concreteType declared with
      | some concrete => return concrete.name
      | none => throw (.conversion place declared.name "object without '$type'")
    else return declared.name

/-- An object from the conversions of its members. -/
def object (schema : Schema) (declared : TypeRef) (named : Option String)
    (members : List (String × Conversion)) (place : String) : Making Value := do
  let typeName ← objectType schema declared named place
  match schema.fieldsOf? typeName with
  | none => throw (.conversion place "known type" typeName)
  | some declaredFields =>
    addObject { typeName, fields := ← fields members place declaredFields }

/-- A list from the conversions of its items. -/
def ofItems (d : Document) (parts : List Conversion) : Conversion
  | none, place => do addSequence (← items none place 0 parts)
  | some type, place =>
    match type.kind with
    | .scalar => mismatch place type.name d
    | .object | .abstract => mismatch place type.name d
    | .list | .set | .queue | .array => do addSequence (← items type.args[0]? place 0 parts)
    | .map => mismatch place type.display d

/-- A table from the conversions of its members. -/
def ofMembers (schema : Schema) (d : Document) (parts : List (String × Conversion)) : Conversion
  | none, place => do addMap (← entries none none place parts)
  | some type, place =>
    match type.kind with
    | .scalar => mismatch place type.name d
    | .object | .abstract =>
      object schema type ((d.member? typeKey).bind Document.text?) parts place
    | .list | .set | .queue | .array => mismatch place type.display d
    | .map => do addMap (← entries type.args[0]? type.args[1]? place parts)

/-- A document without parts. -/
def ofPlain (d : Document) : Conversion
  | none, _ => return plain d
  | some type, place =>
    if d.isNull then return .null
    else
      match type.kind with
      | .scalar =>
        match scalar? type.name d with
        | some v => return v
        | none => mismatch place type.name d
      | .object | .abstract => mismatch place type.name d
      | .list | .set | .queue | .array | .map => mismatch place type.display d

mutual

/-- The conversion of a document. -/
def ofDocument (schema : Schema) : Document → Conversion
  | .list parts => ofItems (.list parts) (ofList schema parts)
  | .table members => ofMembers schema (.table members) (ofTable schema members)
  | d => ofPlain d

def ofList (schema : Schema) : List Document → List Conversion
  | [] => []
  | d :: rest => ofDocument schema d :: ofList schema rest

def ofTable (schema : Schema) : List (String × Document) → List (String × Conversion)
  | [] => []
  | (name, d) :: rest => (name, ofDocument schema d) :: ofTable schema rest

end

end Conversion

/-- The value of a document under a declared type, in a store with its instances. -/
def Value.ofDocument (schema : Schema) (d : Document) (declared : TypeRef) (store : Store) :
    Except IndexingError (Value × Store) :=
  (Conversion.ofDocument schema d (some declared) "$").run store

end ChainMapping
