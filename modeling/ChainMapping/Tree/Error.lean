import ChainMapping.Chain.Error
import ChainMapping.Types.Error

/-!
# Chain errors

Why a chain cannot be resolved.  It may not be a chain at all, it may not fit the fields it names,
or the types it meets may not be known.
-/

namespace ChainMapping

/-- A chain that reads well and does not fit its types. -/
inductive SemanticsError where
  | missingKeyValueMarker (chain field : String) (span : Span)
  | markerOnNonMap (chain field : String) (span : Span)
  | anchorOnNonCollection (chain field : String) (span : Span)
  | missingCollectionNotation (chain field kind : String) (span : Span)
  | notationOnPlainField (chain field : String) (span : Span)
  | multipleAnchors (chain : String) (count : Nat)
  | conflictingTypeHint (chain field hint resolved : String) (span : Span)
  | nestedContainer (chain field : String) (span : Span)
  deriving DecidableEq, Repr

namespace SemanticsError

def span? : SemanticsError → Option Span
  | missingKeyValueMarker _ _ span => some span
  | markerOnNonMap _ _ span => some span
  | anchorOnNonCollection _ _ span => some span
  | missingCollectionNotation _ _ _ span => some span
  | notationOnPlainField _ _ span => some span
  | multipleAnchors _ _ => none
  | conflictingTypeHint _ _ _ _ span => some span
  | nestedContainer _ _ span => some span

def message : SemanticsError → String
  | missingKeyValueMarker chain field span =>
    s!"Map field '{field}' in chain '{chain}' needs a <K> or <V> marker at {span.display}"
  | markerOnNonMap chain field span =>
    s!"Key/value marker on non-map field '{field}' in chain '{chain}' at {span.display}"
  | anchorOnNonCollection chain field span =>
    s!"Anchor on non-collection field '{field}' in chain '{chain}' at {span.display}"
  | missingCollectionNotation chain field kind span =>
    s!"Field '{field}' is a {kind} and needs [*] notation in chain '{chain}' at {span.display}"
  | notationOnPlainField chain field span =>
    s!"Collection notation on plain field '{field}' in chain '{chain}' at {span.display}"
  | multipleAnchors chain count =>
    s!"Chain '{chain}' has {count} anchors, at most one is allowed"
  | conflictingTypeHint chain field hint resolved span =>
    s!"Type hint '{hint}' on '{field}' in chain '{chain}' conflicts with '{resolved}' "
      ++ s!"from an earlier chain at {span.display}"
  | nestedContainer chain field span =>
    s!"Elements of '{field}' are containers themselves and cannot be addressed by a field "
      ++ s!"in chain '{chain}' at {span.display}"

def code : SemanticsError → Code
  | missingKeyValueMarker .. => .missingKeyValueMarker
  | markerOnNonMap .. => .markerOnNonMap
  | anchorOnNonCollection .. => .anchorOnNonCollection
  | missingCollectionNotation .. => .missingCollectionNotation
  | notationOnPlainField .. => .notationOnPlainField
  | multipleAnchors .. => .multipleAnchors
  | conflictingTypeHint .. => .conflictingTypeHint
  | nestedContainer .. => .nestedContainer

end SemanticsError

/-- Why a chain cannot be resolved. -/
inductive ChainError where
  | malformed (error : SyntaxError)
  | unfit (error : SemanticsError)
  | types (chain : String) (error : TypeError)
  deriving DecidableEq, Repr

namespace ChainError

def span? : ChainError → Option Span
  | malformed error => error.span?
  | unfit error => error.span?
  | types .. => none

def message : ChainError → String
  | malformed error => error.message
  | unfit error => error.message
  | types chain error => s!"Chain '{chain}': {error.message}"

def code : ChainError → Code
  | malformed error => error.code
  | unfit error => error.code
  | types _ error => error.code

/-- The stage of resolution that failed, as reports name it. -/
def stage : ChainError → String
  | malformed _ => "syntax"
  | unfit _ => "semantics"
  | types .. => "type_resolution"

end ChainError
end ChainMapping
