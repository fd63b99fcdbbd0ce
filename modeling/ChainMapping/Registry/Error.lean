import ChainMapping.Code

/-!
# Registry errors

Why a mapping could not be registered or restored.
-/

namespace ChainMapping

inductive RegistryError where
  | duplicateMapping (id : String)
  | invalidScript (reason : String)
  | compilationFailed (id : String) (failures : Nat)
  | limitExceeded (what : String) (limit : Nat)
  | rehydrationMismatch (id detail : String)
  | serialization (reason : String)
  deriving DecidableEq, Repr

namespace RegistryError

def message : RegistryError → String
  | duplicateMapping id => s!"Mapping '{id}' is already registered"
  | invalidScript reason => s!"Invalid mapping script: {reason}"
  | compilationFailed id failures => s!"Mapping '{id}' failed to compile with {failures} error(s)"
  | limitExceeded what limit => s!"{what} limit of {limit} exceeded"
  | rehydrationMismatch id detail =>
    s!"Deployed mapping '{id}' no longer matches its types: {detail}"
  | serialization reason => s!"Serialization failed: {reason}"

def code : RegistryError → Code
  | duplicateMapping .. => .duplicateMapping
  | invalidScript .. => .malformedScript
  | compilationFailed .. => .malformedScript
  | limitExceeded .. => .limitExceeded
  | rehydrationMismatch .. => .rehydrationMismatch
  | serialization .. => .internalError

end RegistryError

end ChainMapping
