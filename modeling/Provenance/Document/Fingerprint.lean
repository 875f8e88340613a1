import Provenance.Document
import Provenance.Sha256

/-!
# Fingerprints

A fingerprint tells two macros apart by their structure alone: identifiers, tools and categories of
the nodes, and the connections. Neither the order in which these are listed nor names, paths,
anchors and configuration count.
-/

namespace Provenance

namespace Connection

/-- The four texts that make up a connection. -/
def parts (c : Connection) : List String :=
  [c.source.node, c.source.anchor, c.target.node, c.target.anchor]

/-- Connections in order of their parts. -/
def le (c d : Connection) : Bool :=
  !d.parts.lex c.parts (fun a b ↦ decide (a < b))

end Connection

namespace Node

/-- The texts of a node that belong to its structure. -/
def parts (n : Node) : List String :=
  [n.id, n.toolType, n.category.name]

end Node

namespace Document

/-- The structure of a document as one text: the nodes by identifier, then the connections in
order, with nothing between their parts. -/
def structureText (d : Document) : String :=
  String.join
    ((d.nodes.mergeSort (fun m n ↦ m.id ≤ n.id)).flatMap Node.parts ++
      (d.connections.mergeSort Connection.le).flatMap Connection.parts)

/-- The digest of a document's structure. -/
def fingerprint (d : Document) : String :=
  Sha256.digest d.structureText.toUTF8.toList

end Document

end Provenance
