import ChainMapping.Execution
import ChainMapping.Index.Node

/-!
# Looking at live values

Documents for a tool that shows values and indexes over them.
-/

namespace ChainMapping

open Document

/-- What can be said about a value without following its parts. -/
def Store.facts (s : Store) (v : Value) : List (String × Document) :=
  [("summary", s.summary v), ("kind", text v.kind), ("len", ofOption ofNat (s.length? v)),
    ("is_null", bool v.isNull), ("empty", bool (s.isEmptyContainer v))]

/-- A value with all its parts, down to a depth. -/
def Store.dump (s : Store) : (depth : Nat) → Value → Document
  | _, .null => table [("null", bool true)]
  | _, .bool v => table [("bool", bool v)]
  | _, .int v => table [("int", int v)]
  | _, .float v => table [("float", float v)]
  | _, .text v => table [("text", text v)]
  | 0, _ => null
  | depth + 1, .sequence id => table [("sequence", list ((s.items id).map (s.dump depth)))]
  | depth + 1, .map id => table [("map", list ((s.entries id).map fun (k, v) =>
      list [s.dump depth k, s.dump depth v]))]
  | depth + 1, .object id =>
    let o := (s.object? id).getD default
    table [("object", text o.typeName),
      ("fields", list (o.fields.map fun (k, v) => list [text k, s.dump depth v]))]

/-- An index node without its subtree. -/
def IndexNode.overview (n : IndexNode) (s : Store) : Document :=
  table [("id", text n.id), ("summary", s.summary n.value), ("child_ids", texts n.childIds),
    ("child_count", ofNat n.children.length), ("has_children", bool n.hasChildren),
    ("node_count", ofNat n.nodeCount)]

/-- An execution with the sizes of its indexes. -/
def Execution.overview (e : Execution) (s : Store) : Document :=
  table (e.members s ++ [("mapping_id", text e.mapping.id),
    ("source_nodes", ofOption ofNat (e.sourceIndex.map IndexNode.nodeCount)),
    ("target_nodes", ofOption ofNat (e.targetIndex.map IndexNode.nodeCount))])

end ChainMapping
