import ChainMapping.Span
import ChainMapping.Code
import ChainMapping.Limits

/-!
# Syntax errors

Why a text is not a chain, with the place where that shows.
-/

namespace ChainMapping

/-- What is wrong with a mark that stands where it may not. -/
inductive MarkerFault where
  | anchorOutsideBracket
  | noFieldName
  | hintNotFirst
  | secondBracket
  | bracketAfterMarker
  | unknownMarker
  | secondMarker
  | notTwoParts
  | badMapAnchor
  | badCollectionAnchor
  | badBody
  | markerOnCollection
  deriving DecidableEq, Repr

def MarkerFault.reason : MarkerFault → String
  | anchorOutsideBracket => "anchors belong inside a collection bracket"
  | noFieldName => "notation must follow a field name"
  | hintNotFirst => "a type hint must directly follow the field name"
  | secondBracket => "a segment takes a single bracket"
  | bracketAfterMarker => "the bracket must precede the key/value marker"
  | unknownMarker => "unknown marker, expected <K> or <V>"
  | secondMarker => "a segment takes a single key/value marker"
  | notTwoParts => "map notation takes exactly two parts"
  | badMapAnchor => "expected ^, ^* or *^"
  | badCollectionAnchor => "expected [^], [^*] or [*^]"
  | badBody => "expected '*', an index, an anchor or a two-part map body"
  | markerOnCollection => "key/value markers need map notation, not collection notation"

/-- Why a text is not a chain. -/
inductive SyntaxError where
  | unbalancedBracket (chain : String) (delimiter : Char) (offset : Nat)
  | emptySegment (chain : String) (offset : Nat)
  | misplacedMarker (chain : String) (marker : String) (fault : MarkerFault) (span : Span)
  | invalidIdentifier (chain : String) (segment : String) (span : Span)
  | chainTooLong (length : Nat)
  | tooManyTokens (chain : String) (count : Nat)
  deriving DecidableEq, Repr

namespace SyntaxError

/-- Where the fault shows; the limits are about a chain as a whole. -/
def span? : SyntaxError → Option Span
  | unbalancedBracket _ _ offset => some (Span.byte offset)
  | emptySegment _ offset => some (Span.byte offset)
  | misplacedMarker _ _ _ span => some span
  | invalidIdentifier _ _ span => some span
  | chainTooLong _ => none
  | tooManyTokens _ _ => none

def message : SyntaxError → String
  | unbalancedBracket chain delimiter offset =>
    s!"Unbalanced '{delimiter}' in chain '{chain}' at {(Span.byte offset).display}"
  | emptySegment chain offset =>
    s!"Empty segment in chain '{chain}' at {(Span.byte offset).display}"
  | misplacedMarker chain marker fault span =>
    s!"Misplaced marker '{marker}' in chain '{chain}' at {span.display}: {fault.reason}"
  | invalidIdentifier chain segment _ =>
    s!"Segment '{segment}' in chain '{chain}' is not a valid identifier"
  | chainTooLong length => s!"Chain is {length} bytes long, limit is {Limits.chainLength}"
  | tooManyTokens chain count =>
    s!"Chain '{chain}' has {count} segments, limit is {Limits.tokensPerChain}"

def code : SyntaxError → Code
  | unbalancedBracket .. => .unbalancedBracket
  | emptySegment .. => .emptySegment
  | misplacedMarker .. => .misplacedMarker
  | invalidIdentifier .. => .invalidIdentifier
  | chainTooLong .. => .chainTooLong
  | tooManyTokens .. => .tooManyTokens

end SyntaxError
end ChainMapping
