import ChainMapping.Json.Writer
import ChainMapping.Mapping.Basic

/-!
# Mappings as documents

A mapping written out whole, members in a fixed order.
-/

namespace ChainMapping

open Document

mutual

def TypeRef.document : TypeRef → Document
  | ⟨name, kind, args⟩ =>
    table ([("name", text name), ("kind", text kind.title)]
      ++ (if args.isEmpty then [] else [("generic_args", list (typeDocuments args))]))

def typeDocuments : List TypeRef → List Document
  | [] => []
  | t :: rest => t.document :: typeDocuments rest

end

def MapSide.title : MapSide → String
  | key => "Key"
  | value => "Value"

def Anchor.title : Anchor → String
  | plain => "Plain"
  | pre => "Pre"
  | post => "Post"

def FieldType.document (f : FieldType) : Document :=
  table [("owner", text f.owner), ("name", text f.name), ("declared_type", f.declared.document)]

/-- The members of a segment. -/
def Token.members (t : Token) : List (String × Document) :=
  [("raw", text t.raw), ("otc", text t.normal), ("field_name", text t.name),
   ("index", ofNat t.index),
   ("span", table [("start", ofNat t.span.start), ("end", ofNat t.span.stop)]),
   ("has_collection_notation", bool t.shape.isCollection),
   ("has_map_notation", bool t.shape.isMap),
   ("map_side", ofOption text (t.shape.side?.map MapSide.title)),
   ("anchor", ofOption text (t.shape.anchor?.map Anchor.title)),
   ("type_hint", ofOption text t.hint), ("literal_index", ofOption ofNat t.shape.index?)]

def Chain.document (c : Chain) : Document :=
  table [("chain", .text c.text), ("tokens", list (c.tokens.map fun t => table t.members))]

/-- A table of node numbers. -/
def nodeTable (entries : List (String × Nat)) : Document :=
  table (entries.map fun (key, id) => (key, ofNat id))

def Node.document (n : Node) : Document :=
  table [("id", ofNat n.id), ("token_index", ofNat n.tokenIndex), ("token", text n.token),
    ("path", text n.path), ("field", n.field.document), ("descriptor", text n.descriptor.label),
    ("declared_type", n.declared.document),
    ("concrete_type", ofOption TypeRef.document n.concrete),
    ("is_first_node", bool n.isFirst), ("side", text n.side.label),
    ("parent", ofOption ofNat n.parent), ("children", ofOption nodeTable n.children)]

def Tree.document (t : Tree) : Document :=
  table [("side", text t.side.label), ("root_type", t.rootType.document),
    ("nodes", list (t.nodes.toList.map Node.document)), ("first_nodes", nodeTable t.firstNodes),
    ("overrides", table (t.overrides.map fun (path, concrete) => (path, text concrete)))]

def ResolvedChain.document (r : ResolvedChain) : Document :=
  table [("chain", r.chain.document), ("leaf", ofNat r.leaf)]

def Command.document (c : Command) : Document :=
  table [("id", text c.id), ("source", ofOption ResolvedChain.document c.source),
    ("target", c.target.document), ("converter", ofOption text c.converter),
    ("collection_size_type", ofOption text (c.comparison.map SizeComparison.label)),
    ("generated_type", text c.generatedType)]

def Mapping.document (m : Mapping) : Document :=
  table [("id", text m.id), ("namespace", text m.space), ("source_tree", m.sourceTree.document),
    ("target_tree", m.targetTree.document), ("commands", list (m.commands.map Command.document))]

/-- A mapping as JSON on one line. -/
def Mapping.toJson (m : Mapping) : String := Json.render m.document

end ChainMapping
