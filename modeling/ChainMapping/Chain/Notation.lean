/-!
# Chain notation

The marks a segment can carry after its field name: `[*]` for the elements of a collection,
`[*,*]` for the entries of a map, `<K>` and `<V>` for one side of the entries, and an anchor `^`
inside a bracket.
-/

namespace ChainMapping

/-- The side of a map entry that a segment addresses. -/
inductive MapSide where
  | key
  | value
  deriving DecidableEq, Repr

namespace MapSide

def marker : MapSide → String
  | key => "<K>"
  | value => "<V>"

def ofMarker? (text : String) : Option MapSide :=
  if text = key.marker then some key
  else if text = value.marker then some value
  else none

/-- The name under which a map node holds its member for a side, such as `<K>tags`. -/
def memberKey (side : MapSide) (field : String) : String :=
  side.marker ++ field

end MapSide

/-- Where an anchor stands in its bracket. -/
inductive Anchor where
  /-- written `[^]` -/
  | plain
  /-- written `[^*]` -/
  | pre
  /-- written `[*^]` -/
  | post
  deriving DecidableEq, Repr

namespace Anchor

def body : Anchor → String
  | plain => "^"
  | pre => "^*"
  | post => "*^"

def ofBody? (text : String) : Option Anchor :=
  if text = plain.body then some plain
  else if text = pre.body then some pre
  else if text = post.body then some post
  else none

end Anchor

/-- What a segment asks of the field it names. -/
inductive Shape where
  /-- the field itself -/
  | plain
  /-- the elements of a collection, perhaps written with an element index or an anchor -/
  | collection (index : Option Nat) (anchor : Option Anchor)
  /-- the entries of a map; resolution wants one side named -/
  | map (side : Option MapSide) (anchor : Option Anchor)
  deriving DecidableEq, Repr

namespace Shape

def isCollection : Shape → Bool
  | collection .. => true
  | _ => false

def isMap : Shape → Bool
  | map .. => true
  | _ => false

/-- A segment that addresses elements or entries. -/
def isContainer (s : Shape) : Bool := s.isCollection || s.isMap

def side? : Shape → Option MapSide
  | map side _ => side
  | _ => none

def anchor? : Shape → Option Anchor
  | plain => none
  | collection _ anchor => anchor
  | map _ anchor => anchor

def index? : Shape → Option Nat
  | collection index _ => index
  | _ => none

/-- What stands after the field name in normal form: element indexes and anchors are forgotten, and
a named side replaces the bracket. -/
def suffix : Shape → String
  | plain => ""
  | collection .. => "[*]"
  | map (some side) _ => side.marker
  | map none _ => "[*,*]"

end Shape
end ChainMapping
