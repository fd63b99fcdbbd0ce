import ChainMapping.Log.Level
import ChainMapping.Limits
import ChainMapping.Text.Blank
import ChainMapping.Toml.Writer

/-!
# Settings

Settings change how the library behaves, never its limits.  Each one is read from a variable of the
environment; a variable that is missing, or that does not read as a value, leaves the default.
-/

namespace ChainMapping

structure GrammarSettings where
  /-- reject ids that are not identifiers -/
  strictIdentifiers : Bool := true
  /-- the namespace of a script that names none -/
  defaultNamespace : String := "otc"
  deriving DecidableEq, Repr

structure ResolutionSettings where
  /-- go on with the other chains of a script after one has failed -/
  continueAfterChainError : Bool := true
  logNodeCreation : Bool := false
  deriving DecidableEq, Repr

structure IndexerSettings where
  /-- reject an object that contains itself -/
  detectCycles : Bool := true
  /-- log each chain that needs no indexing because another one covers it -/
  logSkippedChains : Bool := false
  deriving DecidableEq, Repr

structure LoggingSettings where
  /-- one JSON object per event -/
  useStructured : Bool := false
  enableConsole : Bool := false
  minLevel : Level := .info
  showDiagnostics : Bool := true
  /-- tag events with the script being compiled -/
  includeFileContext : Bool := true
  deriving DecidableEq, Repr

/-- The level that counts: warnings are never silenced. -/
def LoggingSettings.effectiveLevel (s : LoggingSettings) : Level :=
  s.minLevel.max (Level.ofNumber (min Limits.securityMinLogLevel 1))

structure Settings where
  grammar : GrammarSettings := {}
  resolution : ResolutionSettings := {}
  indexer : IndexerSettings := {}
  logging : LoggingSettings := {}
  deriving DecidableEq, Repr

namespace Settings

/-- The variables of a process. -/
abbrev Environment := List (String × String)

/-- The value of a variable, blanks at its ends removed, if it reads as one. -/
def read {α : Type} (env : Environment) (name : String) (parse : String → Option α)
    (default : α) : α :=
  ((env.lookup name).bind fun value => parse (Text.trimString value)).getD default

def parseBool (text : String) : Option Bool :=
  if text = "true" then some true else if text = "false" then some false else none

/-- The variables that settings are read from. -/
def variableNames : List String :=
  ["OTC_GRAMMAR_STRICT_IDENTIFIERS", "OTC_GRAMMAR_DEFAULT_NAMESPACE",
   "OTC_RESOLUTION_CONTINUE_AFTER_ERROR", "OTC_RESOLUTION_LOG_NODE_CREATION",
   "OTC_INDEXER_DETECT_CYCLES", "OTC_INDEXER_LOG_SKIPPED_CHAINS",
   "OTC_LOGGING_USE_STRUCTURED", "OTC_LOGGING_ENABLE_CONSOLE", "OTC_LOGGING_MIN_LEVEL",
   "OTC_LOGGING_CARGO_STYLE", "OTC_LOGGING_INCLUDE_FILE_CONTEXT"]

/-- The settings of a process. -/
def ofEnvironment (env : Environment) : Settings where
  grammar :=
    { strictIdentifiers := read env "OTC_GRAMMAR_STRICT_IDENTIFIERS" parseBool true
      defaultNamespace := read env "OTC_GRAMMAR_DEFAULT_NAMESPACE" some "otc" }
  resolution :=
    { continueAfterChainError := read env "OTC_RESOLUTION_CONTINUE_AFTER_ERROR" parseBool true
      logNodeCreation := read env "OTC_RESOLUTION_LOG_NODE_CREATION" parseBool false }
  indexer :=
    { detectCycles := read env "OTC_INDEXER_DETECT_CYCLES" parseBool true
      logSkippedChains := read env "OTC_INDEXER_LOG_SKIPPED_CHAINS" parseBool false }
  logging :=
    { useStructured := read env "OTC_LOGGING_USE_STRUCTURED" parseBool false
      enableConsole := read env "OTC_LOGGING_ENABLE_CONSOLE" parseBool false
      minLevel := read env "OTC_LOGGING_MIN_LEVEL" (fun s => (Level.parse s).toOption) .info
      showDiagnostics := read env "OTC_LOGGING_CARGO_STYLE" parseBool true
      includeFileContext := read env "OTC_LOGGING_INCLUDE_FILE_CONTEXT" parseBool true }

open Toml in
/-- The settings as a TOML text. -/
def toToml (s : Settings) : String :=
  "[grammar]\n"
    ++ boolLine "strict_identifiers" s.grammar.strictIdentifiers
    ++ textLine "default_namespace" s.grammar.defaultNamespace
    ++ "\n[resolution]\n"
    ++ boolLine "continue_after_chain_error" s.resolution.continueAfterChainError
    ++ boolLine "log_node_creation" s.resolution.logNodeCreation
    ++ "\n[indexer]\n"
    ++ boolLine "detect_cycles" s.indexer.detectCycles
    ++ boolLine "log_skipped_chains" s.indexer.logSkippedChains
    ++ "\n[logging]\n"
    ++ boolLine "use_structured_logging" s.logging.useStructured
    ++ boolLine "enable_console_logging" s.logging.enableConsole
    ++ textLine "min_log_level" s.logging.minLevel.title
    ++ boolLine "enable_cargo_style_output" s.logging.showDiagnostics
    ++ boolLine "include_file_context" s.logging.includeFileContext

end Settings
end ChainMapping
