/-!
# Limits

Fixed bounds on what the library accepts.  They protect a process that compiles scripts from
elsewhere, so none of them can be raised by a setting.
-/

namespace ChainMapping
namespace Limits

/-- Bytes of a script or schema file. -/
def fileSize : Nat := 10485760

/-- Bytes of a chain. -/
def chainLength : Nat := 1024

/-- Segments of a chain. -/
def tokensPerChain : Nat := 64

/-- Bytes of a field name. -/
def identifierLength : Nat := 255

/-- Nodes of a command tree. -/
def treeNodes : Nat := 10000

/-- Children of one node of a command tree. -/
def childrenPerNode : Nat := 512

/-- Nested collection levels of an index. -/
def indexDepth : Nat := 64

/-- Nodes that one indexing pass may create. -/
def indexedNodes : Nat := 1000000

/-- Mappings of a registry. -/
def mappings : Nat := 10000

/-- Commands of a mapping script. -/
def commandsPerMapping : Nat := 2000

/-- Worker threads of a batch. -/
def workerThreads : Nat := 16

/-- Script files of a batch. -/
def filesPerBatch : Nat := 10000

/-- Events that a memory logger keeps. -/
def errorCollection : Nat := 1000

/-- Bytes of a log message. -/
def logMessageLength : Nat := 4096

/-- Events that a collector keeps for one script. -/
def logEventsPerFile : Nat := 500

/-- The level that a logger never goes below, as a number. -/
def securityMinLogLevel : Nat := 2

/-- Name of the set of limits that is compiled in. -/
def profile : String := "development"

def configDirectory : String := "config"

def sourceInfo : String := "Generated from config/development.toml"

end Limits
end ChainMapping
