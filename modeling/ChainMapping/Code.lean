/-!
# Codes

Every diagnostic and every success that is reported carries a code.  A code that is registered here
has a category, a severity and a recommendation; any other text may serve as a code too and reads
as unknown.
-/

namespace ChainMapping

inductive Severity where
  | critical
  | high
  | medium
  | low
  deriving DecidableEq, Repr

def Severity.label : Severity → String
  | critical => "Critical"
  | high => "High"
  | medium => "Medium"
  | low => "Low"

/-- A code such as `E101`. -/
structure Code where
  text : String
  deriving DecidableEq, Repr, Inhabited

/-- What is registered about a code. -/
structure CodeEntry where
  code : String
  category : String
  severity : Severity
  recoverable : Bool
  requiresHalt : Bool
  description : String
  action : String
  deriving DecidableEq, Repr

namespace Code

def internalError : Code := ⟨"ERR001"⟩
def fileNotFound : Code := ⟨"E005"⟩
def invalidExtension : Code := ⟨"E006"⟩
def fileTooLarge : Code := ⟨"E007"⟩
def emptyFile : Code := ⟨"E008"⟩
def invalidEncoding : Code := ⟨"E010"⟩
def ioError : Code := ⟨"E011"⟩
def unreadableScript : Code := ⟨"E012"⟩
def unbalancedBracket : Code := ⟨"E101"⟩
def emptySegment : Code := ⟨"E102"⟩
def misplacedMarker : Code := ⟨"E103"⟩
def invalidIdentifier : Code := ⟨"E104"⟩
def chainTooLong : Code := ⟨"E105"⟩
def tooManyTokens : Code := ⟨"E106"⟩
def missingKeyValueMarker : Code := ⟨"E201"⟩
def markerOnNonMap : Code := ⟨"E202"⟩
def anchorOnNonCollection : Code := ⟨"E203"⟩
def missingCollectionNotation : Code := ⟨"E204"⟩
def notationOnPlainField : Code := ⟨"E205"⟩
def multipleAnchors : Code := ⟨"E206"⟩
def nestedContainer : Code := ⟨"E207"⟩
def conflictingTypeHint : Code := ⟨"E208"⟩
def unknownType : Code := ⟨"E301"⟩
def unknownField : Code := ⟨"E302"⟩
def rawCollection : Code := ⟨"E303"⟩
def unresolvedAbstractType : Code := ⟨"E304"⟩
def treeTooLarge : Code := ⟨"E305"⟩
def invalidTypeExpression : Code := ⟨"E306"⟩
def duplicateMapping : Code := ⟨"E401"⟩
def duplicateCommand : Code := ⟨"E402"⟩
def malformedScript : Code := ⟨"E403"⟩
def limitExceeded : Code := ⟨"E404"⟩
def rehydrationMismatch : Code := ⟨"E405"⟩
def cyclicGraph : Code := ⟨"E501"⟩
def fieldAccess : Code := ⟨"E502"⟩
def depthLimit : Code := ⟨"E503"⟩
def unknownMapping : Code := ⟨"E504"⟩
def treeMismatch : Code := ⟨"E505"⟩
def nodeLimit : Code := ⟨"E506"⟩
def valueConversion : Code := ⟨"E507"⟩
def operationCompletedSuccessfully : Code := ⟨"I001"⟩
def systemInitializationCompleted : Code := ⟨"I004"⟩
def fileProcessingSuccess : Code := ⟨"I006"⟩
def mappingCompiled : Code := ⟨"I030"⟩
def registryLoaded : Code := ⟨"I040"⟩
def registryReloaded : Code := ⟨"I041"⟩
def objectIndexed : Code := ⟨"I050"⟩

/-- All registered codes. -/
def entries : List CodeEntry := [
  ⟨"ERR001", "System", .critical, false, true,
    "Critical internal error",
    "File a bug report with the failing input"⟩,
  ⟨"ERR002", "System", .critical, false, true,
    "Logging or registry initialization failed",
    "Check process environment and configuration"⟩,
  ⟨"E005", "FileProcessing", .high, false, false,
    "Mapping script file not found",
    "Verify the path exists"⟩,
  ⟨"E006", "FileProcessing", .low, true, false,
    "File does not carry the .otc.toml extension",
    "Rename the script or pass it explicitly"⟩,
  ⟨"E007", "FileProcessing", .high, false, false,
    "Mapping script exceeds the configured size limit",
    "Split the script into several mappings"⟩,
  ⟨"E008", "FileProcessing", .medium, true, false,
    "Mapping script is empty",
    "Add at least one command"⟩,
  ⟨"E010", "FileProcessing", .high, false, false,
    "Mapping script is not valid UTF-8",
    "Re-encode the file as UTF-8"⟩,
  ⟨"E011", "FileProcessing", .high, false, false,
    "I/O error while reading input",
    "Check permissions and disk state"⟩,
  ⟨"E012", "FileProcessing", .high, false, false,
    "Mapping script is not valid TOML",
    "Fix the TOML syntax reported by the parser"⟩,
  ⟨"E101", "Grammar", .high, true, false,
    "Unbalanced bracket in chain",
    "Close every '[', '<' and '(' in the segment"⟩,
  ⟨"E102", "Grammar", .high, true, false,
    "Empty chain segment",
    "Remove doubled or trailing '.' separators"⟩,
  ⟨"E103", "Grammar", .high, true, false,
    "Misplaced notation marker",
    "Place '^', '<K>' and '<V>' directly on a field segment"⟩,
  ⟨"E104", "Grammar", .high, true, false,
    "Segment is not a valid identifier",
    "Use letters, digits and '_' for field names"⟩,
  ⟨"E105", "Grammar", .high, true, false,
    "Chain exceeds the configured length limit",
    "Shorten the chain"⟩,
  ⟨"E106", "Grammar", .high, true, false,
    "Chain has too many segments",
    "Reduce nesting depth"⟩,
  ⟨"E201", "Semantics", .high, true, false,
    "Map segment does not say whether it addresses keys or values",
    "Add '<K>' or '<V>' to the map segment"⟩,
  ⟨"E202", "Semantics", .high, true, false,
    "Key/value marker on a segment that is not a map",
    "Remove the marker or fix the field name"⟩,
  ⟨"E203", "Semantics", .high, true, false,
    "Anchor on a segment that is not a collection",
    "Anchor only collection or map segments"⟩,
  ⟨"E204", "Semantics", .high, true, false,
    "Collection field addressed without collection notation",
    "Add '[*]' to the segment"⟩,
  ⟨"E205", "Semantics", .high, true, false,
    "Collection notation on a plain field",
    "Remove the bracket from the segment"⟩,
  ⟨"E206", "Semantics", .high, true, false,
    "More than one anchor in a chain",
    "Keep a single anchor per chain"⟩,
  ⟨"E207", "Semantics", .high, true, false,
    "Directly nested container element",
    "Wrap the inner container in a named object field"⟩,
  ⟨"E208", "Semantics", .high, true, false,
    "Type hint disagrees with the type an earlier chain resolved for the same segment",
    "Use one concrete type per segment within a mapping side"⟩,
  ⟨"E301", "TypeResolution", .high, true, false,
    "Type is not known to the introspector",
    "Declare the type in the schema"⟩,
  ⟨"E302", "TypeResolution", .high, true, false,
    "Field is not declared on the owning type",
    "Check the field name against the schema"⟩,
  ⟨"E303", "TypeResolution", .high, true, false,
    "Raw collection has no recoverable element type",
    "Declare the generic argument or configure an override"⟩,
  ⟨"E304", "TypeResolution", .high, true, false,
    "Abstract type has no configured concrete type",
    "Add a concrete-type override for the segment"⟩,
  ⟨"E305", "TypeResolution", .high, false, false,
    "Command tree exceeds the configured node limit",
    "Split the mapping"⟩,
  ⟨"E306", "TypeResolution", .high, false, false,
    "Type expression in schema could not be parsed",
    "Fix the declared type expression"⟩,
  ⟨"E401", "Registry", .high, false, false,
    "Mapping id registered twice",
    "Give each mapping a unique id"⟩,
  ⟨"E402", "Registry", .medium, true, false,
    "Command id used twice in one mapping",
    "Give each command a unique id"⟩,
  ⟨"E403", "Registry", .high, false, false,
    "Mapping script is structurally invalid",
    "Check required script keys"⟩,
  ⟨"E404", "Registry", .high, false, false,
    "Registry limit exceeded",
    "Reduce the number of mappings or commands"⟩,
  ⟨"E405", "Registry", .high, false, false,
    "Persisted chain descriptor no longer matches the type schema",
    "Recompile the mapping"⟩,
  ⟨"E406", "Registry", .critical, false, true,
    "Registry lock poisoned",
    "Restart the process"⟩,
  ⟨"E501", "Indexing", .high, false, false,
    "Live object graph contains a reference cycle",
    "Break the cycle or map the object without the cyclic chain"⟩,
  ⟨"E502", "Indexing", .high, false, false,
    "Field could not be read from the live object",
    "Recompile the mapping against the current schema"⟩,
  ⟨"E503", "Indexing", .high, false, false,
    "Indexing exceeded the configured depth limit",
    "Reduce object nesting"⟩,
  ⟨"E504", "Indexing", .medium, false, false,
    "Mapping id is not registered",
    "Check the mapping id"⟩,
  ⟨"E505", "Indexing", .high, false, false,
    "Command tree does not match the indexed chain",
    "Recompile the mapping"⟩,
  ⟨"E506", "Indexing", .high, false, false,
    "Indexing exceeded the configured node limit",
    "Reduce collection sizes"⟩,
  ⟨"E507", "Indexing", .medium, false, false,
    "Document does not match the declared type",
    "Fix the document or the schema"⟩,
  ⟨"I001", "Success", .low, true, false,
    "Operation completed",
    "None"⟩,
  ⟨"I004", "Success", .low, true, false,
    "System initialization completed",
    "None"⟩,
  ⟨"I006", "Success", .low, true, false,
    "Mapping script processed",
    "None"⟩,
  ⟨"I010", "Success", .low, true, false,
    "Chain tokenized",
    "None"⟩,
  ⟨"I020", "Success", .low, true, false,
    "Chain resolved into command tree",
    "None"⟩,
  ⟨"I030", "Success", .low, true, false,
    "Mapping compiled",
    "None"⟩,
  ⟨"I040", "Success", .low, true, false,
    "Registry loaded",
    "None"⟩,
  ⟨"I041", "Success", .low, true, false,
    "Registry reloaded",
    "None"⟩,
  ⟨"I050", "Success", .low, true, false,
    "Object indexed",
    "None"⟩]

def entry? (c : Code) : Option CodeEntry := entries.find? (·.code == c.text)

def category (c : Code) : String := (c.entry?.map (·.category)).getD "Unknown"

def severity (c : Code) : Severity := (c.entry?.map (·.severity)).getD .medium

/-- A code that is not registered does not stop anything. -/
def isRecoverable (c : Code) : Bool := (c.entry?.map (·.recoverable)).getD true

def requiresHalt (c : Code) : Bool := (c.entry?.map (·.requiresHalt)).getD false

def description? (c : Code) : Option String := c.entry?.map (·.description)

/-- What to do about it. -/
def help (c : Code) : String :=
  (c.entry?.map (·.action)).getD "no recommendation for this code"

end Code
end ChainMapping
