import ChainMapping.Chain.Notation
import ChainMapping.Span
import ChainMapping.Text.Search

/-!
# Chains

A chain names a place in an object graph: a sequence of segments, each a field name with the marks
that say whether its elements or entries are meant.  A segment keeps its text as written beside its
normal form, in which element indexes, anchors and type hints are gone; chains with the same normal
form address the same place.
-/

namespace ChainMapping

/-- One segment of a chain. -/
structure Token where
  /-- the segment as written -/
  raw : String
  name : String
  index : Nat
  span : Span
  shape : Shape
  /-- the type written after the name, as in `payload(Card)` -/
  hint : Option String
  deriving DecidableEq, Repr

namespace Token

/-- The segment in normal form: `name`, `name[*]`, `name<K>`, `name<V>` or `name[*,*]`. -/
def normal (t : Token) : String := t.name ++ t.shape.suffix

def isContainer (t : Token) : Bool := t.shape.isContainer

/-- The written text has an anchor sign. -/
def isAnchored (t : Token) : Bool := t.raw.toList.contains '^'

/-- The written text has an anchor sign that opens a bracket before the wildcard. -/
def isPreAnchored (t : Token) : Bool := Text.hasInfix "[^*".toList t.raw.toList

/-- The written text has an anchor sign that closes a bracket after the wildcard. -/
def isPostAnchored (t : Token) : Bool := Text.hasInfix "*^]".toList t.raw.toList

end Token

/-- A text read as a chain. -/
structure Chain where
  text : String
  tokens : List Token
  deriving DecidableEq, Repr

namespace Chain

def length (c : Chain) : Nat := c.tokens.length

def lastIndex (c : Chain) : Nat := c.tokens.length - 1

/-- The chain in normal form: its segments in normal form, joined. -/
def normal (c : Chain) : String := Text.join "." (c.tokens.map Token.normal)

/-- The chain in normal form up to and including segment `index`. -/
def normalPrefix (c : Chain) (index : Nat) : String :=
  Text.join "." ((c.tokens.take (index + 1)).map Token.normal)

/-- Segments that address elements or entries. -/
def containerCount (c : Chain) : Nat := c.tokens.countP Token.isContainer

def anchorCount (c : Chain) : Nat := c.tokens.countP fun t => t.shape.anchor?.isSome

def hasAnchor (c : Chain) : Bool := 0 < c.anchorCount

/-- The last segment that addresses elements or entries. -/
def lastContainerIndex? (c : Chain) : Option Nat :=
  (c.tokens.zipIdx.filter fun (t, _) => t.isContainer).getLast?.map Prod.snd

end Chain
end ChainMapping
