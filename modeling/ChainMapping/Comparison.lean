import ChainMapping.Tree.Cursor

/-!
# Comparing the depths of two chains

Generated code opens one loop per level of elements.  Where source and target nest differently, the
deeper side drives the iteration.
-/

namespace ChainMapping

/-- Which side nests deeper. -/
inductive SizeComparison where
  | largeSource
  | largeTarget
  | equalSize
  deriving DecidableEq, Repr

namespace SizeComparison

def compare (source target : Nat) : SizeComparison :=
  if target < source then largeSource
  else if source < target then largeTarget
  else equalSize

def label : SizeComparison → String
  | largeSource => "LARGE_SOURCE"
  | largeTarget => "LARGE_TARGET"
  | equalSize => "EQUAL_SIZE"

def ofLabel? (text : String) : Option SizeComparison :=
  [largeSource, largeTarget, equalSize].find? (·.label == text)

/-- Whole source chain against whole target chain. -/
def initial (source target : Cursor) : SizeComparison :=
  compare source.containerCount target.containerCount

/-- The source against what is left of the target.  The source loses a level when the target is
anchored somewhere else than here. -/
def current (source target : Cursor) : SizeComparison :=
  let levels :=
    if target.chain.hasAnchor && !target.isAnchored then source.containerCount - 1
    else source.containerCount
  compare levels target.remainingContainers

/-- The source against what is left of the target, whatever the anchor. -/
def currentInclusive (source target : Cursor) : SizeComparison :=
  compare source.containerCount target.remainingContainers

end SizeComparison
end ChainMapping
