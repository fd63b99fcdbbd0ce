import ChainMapping.Chain.Normal
import ChainMapping.Text.Capital
import ChainMapping.Text.Search

/-!
# Generated type names

Every command gets the name of a generated type, made from the namespace of its mapping and its
target chain.  The same chain in the same namespace keeps its name; chains that would share one by
accident get a number after it.
-/

namespace ChainMapping
namespace Naming

/-- A text without its `[…]` and `(…)` groups and without anchor signs.  A group ends at the first
bracket that closes its kind; an opening bracket that is never closed stays.  `skipping` is the
bracket that ends the group being skipped. -/
def stripGroups : Option Char → List Char → List Char
  | _, [] => []
  | some closer, c :: rest =>
    if c = closer then stripGroups none rest else stripGroups (some closer) rest
  | none, c :: rest =>
    if c = '[' && rest.contains ']' then stripGroups (some ']') rest
    else if c = '(' && rest.contains ')' then stripGroups (some ')') rest
    else if c = '^' then stripGroups none rest
    else c :: stripGroups none rest

/-- Key and value markers spelled out as segments. -/
def spellMarkers : List Char → List Char
  | '<' :: 'K' :: '>' :: rest => ".key".toList ++ spellMarkers rest
  | '<' :: 'V' :: '>' :: rest => ".value".toList ++ spellMarkers rest
  | c :: rest => c :: spellMarkers rest
  | [] => []

/-- Words run together, each with a capital first letter; `.` and `_` end a word. -/
def capitalizeWords : Bool → List Char → List Char
  | _, [] => []
  | atStart, c :: rest =>
    if c = '.' || c = '_' then capitalizeWords true rest
    else if atStart then Text.capital c ++ capitalizeWords false rest
    else c :: capitalizeWords false rest

/-- The part of a generated name that stands for a namespace or a chain. -/
def fragment (text : String) : String :=
  String.ofList (capitalizeWords true (spellMarkers (stripGroups none text.toList)))

/-- The names handed out so far, latest first, each under the namespace and chain it stands for. -/
structure Registry where
  issued : List (String × String) := []
  deriving DecidableEq, Repr

namespace Registry

def size (r : Registry) : Nat := r.issued.length

def isEmpty (r : Registry) : Bool := r.issued.isEmpty

/-- The key of a chain: chains with the same normal form share it. -/
def key (space chain : String) : String := space ++ "::" ++ Chain.sanitize chain

def isTaken (r : Registry) (name : String) : Bool := r.issued.any (·.2 == name)

/-- The `n`-th choice for a name: the name itself, then the name followed by `_2`, `_3`, … -/
def candidate (base : String) : Nat → String
  | 0 => base
  | n + 1 => s!"{base}_{n + 2}"

/-- The first free choice from the `n`-th on.  Among one choice more than there are names taken, one
is free, so `tries` need not exceed that number. -/
def firstFree (r : Registry) (base : String) : (tries : Nat) → Nat → String
  | 0, n => candidate base n
  | tries + 1, n =>
    if r.isTaken (candidate base n) then firstFree r base tries (n + 1) else candidate base n

/-- The name of a chain in a namespace, and the registry that remembers it. -/
def synthesize (r : Registry) (space chain : String) : String × Registry :=
  let key := key space chain
  match r.issued.lookup key with
  | some name => (name, r)
  | none =>
    let name := r.firstFree (fragment space ++ fragment chain) r.size 0
    (name, ⟨(key, name) :: r.issued⟩)

end Registry
end Naming
end ChainMapping
