import Mathlib.Data.List.Forall2
import ChainMapping.Proofs.Mapping.Drafts
import ChainMapping.Proofs.Mapping.Origins
import ChainMapping.Proofs.Tree.Transparency

/-!
# What is reported about a script

The commands of a script share two trees, but for chains without hints this does not show in the
reports: about each command exactly that is reported which its chains come to alone, each in an
empty tree, or that its id was used before.  There is a mapping exactly if there is nothing to
report, and then it has one command for each command of the script.
-/

namespace ChainMapping

namespace Script

variable (s : Script) (i : Introspector) (root : Side → TypeRef)

end Script

/-! ## One chain -/

namespace Compiler

variable {c : Compiler} {s : Script} {root : Side → TypeRef} {side : Side}

end Compiler

/-! ## The commands of a mapping -/

namespace Compiler

variable {c : Compiler} {s : Script} {source target : TypeRef}

/-- A script over objects and the half of a map. -/
def visits (commands : List ScriptCommand) : Script where
  id := "visits"
  sourceType := "Root"
  targetType := "Root"
  commands := commands

end Compiler
end ChainMapping
