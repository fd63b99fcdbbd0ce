import ChainMapping.Mapping.Written
import ChainMapping.Tree.Cursor

/-!
# Looking at trees

Documents for a tool that shows what chains were resolved to.
-/

namespace ChainMapping

open Document

/-- A type with what its kind says about it. -/
def TypeRef.overview (t : TypeRef) : Document :=
  table [("type", t.document), ("display", text t.display), ("kind", text t.kind.label),
    ("is_collection", bool t.isCollection), ("is_map", bool t.isMap),
    ("is_container", bool t.isContainer)]

/-- A segment with what it asks for. -/
def Token.overview (t : Token) : Document :=
  table (t.members ++ [("has_notation", bool t.isContainer), ("is_anchored", bool t.isAnchored),
    ("is_pre_anchored", bool t.isPreAnchored), ("is_post_anchored", bool t.isPostAnchored)])

/-- Names with node numbers, in order. -/
def nodePairs (entries : List (String × Nat)) : Document :=
  list (entries.map fun (key, id) => list [text key, ofNat id])

def Node.overview (n : Node) : Document :=
  table [("id", ofNat n.id), ("token_index", ofNat n.tokenIndex), ("token", text n.token),
    ("path", text n.path), ("owner", text n.field.owner), ("field", text n.field.name),
    ("field_type", text n.field.declared.display), ("descriptor", text n.descriptor.label),
    ("declared", n.declared.document), ("concrete", ofOption TypeRef.document n.concrete),
    ("is_first_node", bool n.isFirst), ("side", text n.side.label),
    ("parent", ofOption ofNat n.parent), ("children", ofOption nodePairs n.children)]

def Tree.overview (t : Tree) : Document :=
  table [("side", text t.side.label), ("root_type", t.rootType.document), ("len", ofNat t.size),
    ("is_empty", bool t.isEmpty), ("first_nodes", nodePairs t.firstNodes),
    ("overrides", list (t.overrides.map fun (path, type) => list [text path, text type])),
    ("nodes", list (t.nodes.toList.map Node.overview))]

/-- Path and role of every node. -/
def Tree.outline (t : Tree) : Document :=
  list (t.summary.map fun (path, d) => list [text path, text d.label])

/-- All that a cursor can answer about its place. -/
def Cursor.overview (c : Cursor) : Document :=
  let id (o : Option Cursor) : Document := ofOption ofNat (o.map (·.nodeId))
  let role := c.node?.map (·.descriptor)
  let is (f : Descriptor → Bool) : Document := bool ((role.map f).getD false)
  table [("node", ofNat c.nodeId), ("path", ofOption text (c.node?.map (·.path))),
    ("descriptor", ofOption text (role.map (·.label))), ("member_node", is Descriptor.isMember),
    ("token_index", ofNat c.tokenIndex), ("raw", ofOption text (c.token?.map (·.raw))),
    ("is_first_node", bool c.isFirstNode), ("is_leaf", bool c.isLeaf),
    ("is_leaf_parent", bool c.isLeafParent), ("ancestral", bool c.hasAncestralContainer),
    ("descendant", bool c.hasDescendantContainer), ("anchored", bool c.isAnchored),
    ("pre", bool c.isPreAnchored), ("post", bool c.isPostAnchored),
    ("chain_has_anchor", bool c.chain.hasAnchor),
    ("descendants_count", ofNat c.remainingContainers),
    ("collections_count", ofNat c.containerCount), ("prefix", text c.normalPrefix),
    ("child_count", ofNat ((c.node?.map (·.childCount)).getD 0)), ("member", id c.member?),
    ("key_member", id (c.mapMember? .key)), ("value_member", id (c.mapMember? .value)),
    ("descend", id c.descend?), ("parent", id c.parent?),
    ("flags", list [is (· = .mapKey), is (· = .mapValue), is (· = .collectionMember),
      is Descriptor.isCollection, is Descriptor.isMap])]

end ChainMapping
