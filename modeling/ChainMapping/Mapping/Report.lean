import ChainMapping.Document.Basic
import ChainMapping.Tree.Error
import ChainMapping.Tree.Node

/-!
# Compilation reports

What came of compiling a chain, a command or a whole script.
-/

namespace ChainMapping

structure Report where
  success : Bool
  mappingId : String
  commandId : Option String := none
  side : Option Side := none
  chain : Option String := none
  file : Option String := none
  message : String
  cause : Option String := none
  code : Option Code := none
  deriving DecidableEq, Repr

namespace Report

def ok (mappingId message : String) : Report := { success := true, mappingId, message }

def failure (mappingId : String) (code : Code) (message : String) : Report :=
  { success := false, mappingId, message, code := some code }

/-- A chain of a command that could not be resolved. -/
def chainFailure (mappingId commandId : String) (side : Side) (chain : String)
    (error : ChainError) : Report :=
  let place := match error.span? with
    | some span => s!" at {span.display}"
    | none => ""
  { success := false
    mappingId
    commandId := some commandId
    side := some side
    chain := some chain
    message := s!"{side.label} chain of command '{commandId}': {error.message}"
    cause := some s!"{error.stage} error{place}"
    code := some error.code }

def withCommand (r : Report) (commandId : String) : Report := { r with commandId := some commandId }

def withFile (r : Report) (file : String) : Report := { r with file := some file }

/-- The report on one line. -/
def format (r : Report) : String :=
  let status := if r.success then "ok" else "error"
  let head := match r.code with
    | some code => s!"{status}[{code.text}] [{r.mappingId}]"
    | none => s!"{status} [{r.mappingId}]"
  let file := match r.file with
    | some file => s!" {file}"
    | none => ""
  let chain := match r.chain with
    | some chain => s!" `{chain}`"
    | none => ""
  head ++ file ++ chain ++ s!": {r.message}"

/-- The members of a report as a document; what is absent is left out. -/
def members (r : Report) : List (String × Document) :=
  let maybe (key : String) (value : Option String) : List (String × Document) :=
    (value.map fun v => (key, Document.text v)).toList
  [("success", .bool r.success), ("mapping_id", .text r.mappingId)]
    ++ maybe "command_id" r.commandId ++ maybe "side" (r.side.map Side.label)
    ++ maybe "chain" r.chain ++ maybe "file" r.file ++ [("message", .text r.message)]
    ++ maybe "cause" r.cause ++ maybe "code" (r.code.map (·.text))

/-- The report as a document, stamped with a time. -/
def document (r : Report) (time : String) : Document :=
  .table (r.members ++ [("timestamp", .text time)])

end Report

/-- How many of the reports are failures. -/
def failureCount (reports : List Report) : Nat := reports.countP fun r => !r.success

end ChainMapping
