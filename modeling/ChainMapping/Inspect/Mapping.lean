import ChainMapping.Inspect.Tree
import ChainMapping.Mapping.Report
import ChainMapping.Registry.Basic
import ChainMapping.Registry.Deployment
import ChainMapping.ScriptFile.Compile

/-!
# Looking at mappings

Documents for a tool that shows scripts, mappings and what became of compiling them.
-/

namespace ChainMapping

open Document

def ResolvedChain.overview (r : ResolvedChain) : Document :=
  table [("chain", text r.chain.text), ("sanitized", text r.chain.normal), ("leaf", ofNat r.leaf)]

/-- A mapping with its trees in full or in outline. -/
def Mapping.overview (m : Mapping) (brief : Bool) : Document :=
  let tree := if brief then Tree.outline else Tree.overview
  table [("id", text m.id), ("namespace", text m.space), ("source_tree", tree m.sourceTree),
    ("target_tree", tree m.targetTree), ("commands", list (m.commands.map fun c =>
      table [("id", text c.id), ("source", ofOption ResolvedChain.overview c.source),
        ("target", c.target.overview), ("converter", ofOption text c.converter),
        ("generated_type", text c.generatedType),
        ("collection_size_type", ofOption text (c.comparison.map (·.label)))]))]

def Report.overview (r : Report) : Document :=
  table (r.members ++ [("format", text r.format)])

def CompiledFile.overview (f : CompiledFile) : Document :=
  table [("path", text f.path.text), ("file_size", ofNat f.size),
    ("nodes", ofNat f.mapping.nodeCount), ("mapping", f.mapping.overview true),
    ("reports", list (f.reports.map Report.overview))]

/-- A script as a document; what is absent is left out. -/
def Script.overview (s : Script) : Document :=
  let maybe (key : String) (value : Option String) : List (String × Document) :=
    (value.map fun v => (key, text v)).toList
  let command (c : ScriptCommand) : Document :=
    table ([("id", text c.id), ("to", text c.target)] ++ maybe "from" c.source
      ++ maybe "converter" c.converter)
  table ([("id", text s.id), ("source_type", text s.sourceType), ("target_type", text s.targetType),
      ("commands", list (s.commands.map command))] ++ maybe "namespace" s.space
    ++ (if s.overrides.isEmpty then []
        else [("overrides", list (s.overrides.map TypeOverride.document))]))

def Snapshot.overview (s : Snapshot) : Document :=
  table [("ids", texts s.ids), ("len", ofNat s.size), ("is_empty", bool s.isEmpty),
    ("reports", texts (s.reports.map Report.format))]

end ChainMapping
