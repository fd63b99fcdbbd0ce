import ChainMapping.Batch.Discovery
import ChainMapping.Index.Error
import ChainMapping.Registry.Error
import ChainMapping.Schema.Basic
import ChainMapping.Tree.Error

/-!
# Kinds of errors

The name of each kind of error for tools that read reports.  A code can stand for several kinds; a
kind has one name.
-/

namespace ChainMapping

def SyntaxError.kind : SyntaxError → String
  | unbalancedBracket .. => "UnbalancedBracket"
  | emptySegment .. => "EmptySegment"
  | misplacedMarker .. => "MisplacedMarker"
  | invalidIdentifier .. => "InvalidIdentifier"
  | chainTooLong .. => "ChainTooLong"
  | tooManyTokens .. => "TooManyTokens"

def SemanticsError.kind : SemanticsError → String
  | missingKeyValueMarker .. => "MissingKeyValueMarker"
  | markerOnNonMap .. => "MarkerOnNonMap"
  | anchorOnNonCollection .. => "AnchorOnNonCollection"
  | missingCollectionNotation .. => "MissingCollectionNotation"
  | notationOnPlainField .. => "NotationOnPlainField"
  | multipleAnchors .. => "MultipleAnchors"
  | conflictingTypeHint .. => "ConflictingTypeHint"
  | nestedContainer .. => "NestedContainer"

def TypeError.kind : TypeError → String
  | unknownType .. => "UnknownType"
  | unknownField .. => "UnknownField"
  | rawCollection .. => "RawCollection"
  | unresolvedAbstract .. => "UnresolvedAbstractType"
  | treeTooLarge .. => "TreeTooLarge"
  | invalidExpression .. => "InvalidTypeExpression"

/-- The kind of the error inside. -/
def ChainError.kind : ChainError → String
  | malformed error => error.kind
  | unfit error => error.kind
  | types _ error => error.kind

def SchemaError.kind : SchemaError → String
  | unreadable .. => "Io"
  | parse .. => "Parse"
  | unsupportedFormat .. => "UnsupportedFormat"
  | field .. => "Field"

def RegistryError.kind : RegistryError → String
  | duplicateMapping .. => "DuplicateMapping"
  | invalidScript .. => "InvalidScript"
  | compilationFailed .. => "CompilationFailed"
  | limitExceeded .. => "LimitExceeded"
  | rehydrationMismatch .. => "RehydrationMismatch"
  | serialization .. => "Serialization"

def IndexingError.kind : IndexingError → String
  | cyclicGraph .. => "CyclicGraph"
  | fieldAccess .. => "FieldAccess"
  | depthLimitExceeded => "DepthLimitExceeded"
  | nodeLimitExceeded => "NodeLimitExceeded"
  | unknownMapping .. => "UnknownMapping"
  | treeMismatch .. => "TreeMismatch"
  | conversion .. => "Conversion"

def ScriptFileError.kind : ScriptFileError → String
  | notFound .. => "FileNotFound"
  | wrongExtension .. => "InvalidExtension"
  | tooLarge .. => "FileTooLarge"
  | empty .. => "EmptyFile"
  | invalidEncoding .. => "InvalidEncoding"
  | rejected .. => "Script"
  | uncompiled .. => "Compilation"

def BatchError.kind : BatchError → String
  | directoryNotFound .. => "DirectoryNotFound"
  | noScripts .. => "NoFilesFound"

end ChainMapping
