import ChainMapping.Log.Collector
import ChainMapping.Settings

/-!
# Looking at logs and settings

Documents for a tool that shows events, diagnostics, codes, limits and settings.
-/

namespace ChainMapping

open Document

def Event.overview (e : Event) : Document :=
  table [("format", .text e.format), ("category", .text e.category),
    ("context", table (e.context.map fun (k, v) => (k, .text v)))]

def Totals.document (t : Totals) : Document :=
  table [("scripts", ofNat t.scripts), ("failed_scripts", ofNat t.failedScripts),
    ("errors", ofNat t.errors), ("warnings", ofNat t.warnings), ("dropped", ofNat t.dropped),
    ("has_errors", bool t.hasErrors)]

def CodeEntry.document (e : CodeEntry) : Document :=
  table [("code", text e.code), ("category", text e.category), ("severity", text e.severity.label),
    ("recoverable", bool e.recoverable), ("requires_halt", bool e.requiresHalt),
    ("description", text e.description), ("action", text e.action)]

def Code.overview (c : Code) : Document :=
  table [("metadata", ofOption CodeEntry.document c.entry?), ("display", .text c.text),
    ("category", .text c.category), ("severity", .text c.severity.label),
    ("recoverable", bool c.isRecoverable), ("halt", bool c.requiresHalt),
    ("description", ofOption .text c.description?), ("help", .text c.help)]

def Limits.document : Document :=
  table [("max_chain_length", ofNat Limits.chainLength),
    ("max_children_per_node", ofNat Limits.childrenPerNode),
    ("max_commands_per_mapping", ofNat Limits.commandsPerMapping),
    ("max_error_collection", ofNat Limits.errorCollection),
    ("max_file_size", ofNat Limits.fileSize), ("max_files_per_batch", ofNat Limits.filesPerBatch),
    ("max_identifier_length", ofNat Limits.identifierLength),
    ("max_index_depth", ofNat Limits.indexDepth), ("max_indexed_nodes", ofNat Limits.indexedNodes),
    ("max_log_events_per_file", ofNat Limits.logEventsPerFile),
    ("max_log_message_length", ofNat Limits.logMessageLength),
    ("max_mappings", ofNat Limits.mappings), ("max_tokens_per_chain", ofNat Limits.tokensPerChain),
    ("max_tree_nodes", ofNat Limits.treeNodes), ("max_worker_threads", ofNat Limits.workerThreads),
    ("security_min_log_level", ofNat Limits.securityMinLogLevel)]

def Settings.document (s : Settings) : Document :=
  table [
    ("grammar", table [("strict_identifiers", bool s.grammar.strictIdentifiers),
      ("default_namespace", text s.grammar.defaultNamespace)]),
    ("resolution", table [
      ("continue_after_chain_error", bool s.resolution.continueAfterChainError),
      ("log_node_creation", bool s.resolution.logNodeCreation)]),
    ("indexer", table [("detect_cycles", bool s.indexer.detectCycles),
      ("log_skipped_chains", bool s.indexer.logSkippedChains)]),
    ("logging", table [("use_structured_logging", bool s.logging.useStructured),
      ("enable_console_logging", bool s.logging.enableConsole),
      ("min_log_level", text s.logging.minLevel.title),
      ("enable_cargo_style_output", bool s.logging.showDiagnostics),
      ("include_file_context", bool s.logging.includeFileContext)])]

end ChainMapping
