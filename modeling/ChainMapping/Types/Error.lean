import ChainMapping.Types.Basic
import ChainMapping.Code

/-!
# Type errors

Why a type or a field cannot be resolved.
-/

namespace ChainMapping

/-- What is wrong with a type expression. -/
inductive ExpressionFault where
  | emptyType
  | unclosed
  | invalidName
  | wrongArity (name : String) (expected : Nat)
  | unexpectedArguments
  deriving DecidableEq, Repr

def ExpressionFault.reason : ExpressionFault → String
  | emptyType => "empty type"
  | unclosed => "unclosed '<'"
  | invalidName => "invalid type name"
  | wrongArity name expected => s!"{name} takes {expected} type argument(s)"
  | unexpectedArguments => "only container types take type arguments"

inductive TypeError where
  | unknownType (name : String)
  | unknownField (owner field : String)
  | rawCollection (owner field : String) (kind : Kind)
  | unresolvedAbstract (name path : String)
  | treeTooLarge (limit : Nat)
  | invalidExpression (expression : String) (fault : ExpressionFault)
  deriving DecidableEq, Repr

namespace TypeError

def message : TypeError → String
  | unknownType name => s!"Type '{name}' is not known"
  | unknownField owner field => s!"Type '{owner}' has no field '{field}'"
  | rawCollection owner field kind =>
    s!"Field '{owner}.{field}' is a raw {kind.label} with no element type and no "
      ++ "concrete-type override"
  | unresolvedAbstract name path =>
    s!"Type '{name}' is abstract and no concrete type is configured for '{path}'"
  | treeTooLarge limit => s!"Command tree exceeds {limit} nodes"
  | invalidExpression expression fault =>
    s!"Invalid type expression '{expression}': {fault.reason}"

def code : TypeError → Code
  | unknownType .. => .unknownType
  | unknownField .. => .unknownField
  | rawCollection .. => .rawCollection
  | unresolvedAbstract .. => .unresolvedAbstractType
  | treeTooLarge .. => .treeTooLarge
  | invalidExpression .. => .invalidTypeExpression

end TypeError
end ChainMapping
