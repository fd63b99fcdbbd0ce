import ChainMapping.Files.Tree
import ChainMapping.Inspect.Kind
import ChainMapping.Text.Escaped

/-!
# Errors shown for diagnosis

A message tells a user what went wrong; a diagnosis shows an error as it is, its kind with the data
it carries, for someone who looks into the program.  A program that ends with an error it has no
better word for shows its diagnosis.
-/

namespace ChainMapping

open Text (escaped structured)

namespace FileFault

/-- Faults of the system have a number, faults of the content have none. -/
def diagnosis (f : FileFault) : String :=
  let about := [("kind", f.kind), ("message", escaped f.reason)]
  match f.number? with
  | some number => structured "Os" (("code", toString number) :: about)
  | none => structured "Error" about

end FileFault

namespace TypeError

def diagnosis (e : TypeError) : String :=
  structured e.kind (match e with
    | unknownType name => [("name", escaped name)]
    | unknownField owner field => [("owner", escaped owner), ("field", escaped field)]
    | rawCollection owner field kind =>
      [("owner", escaped owner), ("field", escaped field), ("kind", escaped kind.label)]
    | unresolvedAbstract name path => [("type_name", escaped name), ("path", escaped path)]
    | treeTooLarge limit => [("limit", toString limit)]
    | invalidExpression expression fault =>
      [("expression", escaped expression), ("reason", escaped fault.reason)])

end TypeError

namespace SchemaError

def diagnosis (e : SchemaError) : String :=
  structured e.kind (match e with
    | unreadable path fault => [("path", escaped path), ("source", fault.diagnosis)]
    | parse path reason => [("path", escaped path), ("message", escaped reason)]
    | unsupportedFormat path => [("path", escaped path)]
    | field owner name cause =>
      [("owner", escaped owner), ("field", escaped name), ("source", cause.diagnosis)])

end SchemaError

namespace IndexingError

def diagnosis (e : IndexingError) : String :=
  structured e.kind (match e with
    | cyclicGraph typeName => [("type_name", escaped typeName)]
    | fieldAccess owner field fault =>
      [("owner", escaped owner), ("field", escaped field), ("reason", escaped fault.reason)]
    | depthLimitExceeded => [("limit", toString Limits.indexDepth)]
    | nodeLimitExceeded => [("limit", toString Limits.indexedNodes)]
    | unknownMapping id => [("id", escaped id)]
    | treeMismatch fault => [("detail", escaped fault.detail)]
    | conversion path expected found =>
      [("path", escaped path), ("expected", escaped expected), ("found", escaped found)])

end IndexingError
end ChainMapping
