import Mathlib.Data.List.Nodup
import Provenance.Document.Fingerprint

/-!
# Fingerprints and order

The structure of a document is made of the identifiers, tools and categories of its nodes and of its
connections, each as often as it occurs (`Document.SameStructure`). Before they are written down,
nodes are put in the order of their identifiers and connections in the order of their parts. Where
identifiers are distinct only one arrangement is in that order, so the fingerprint depends on
nothing but the structure (`fingerprint_eq_of_sameStructure`).
-/

namespace Provenance

namespace Connection

theorem parts_injective : Function.Injective parts := by
  rintro ⟨⟨m, a⟩, ⟨n, b⟩⟩ ⟨⟨m', a'⟩, ⟨n', b'⟩⟩ h
  simp_all [parts]

theorem le_total (c d : Connection) : c.le d || d.le c := by
  rw [Bool.or_eq_true, le, le, Bool.not_eq_true', Bool.not_eq_true', List.lex_eq_false_iff_ge,
    List.lex_eq_false_iff_ge]
  exact List.le_total c.parts d.parts

theorem le_trans (b c d : Connection) (hbc : b.le c) (hcd : c.le d) : b.le d := by
  rw [le, Bool.not_eq_true', List.lex_eq_false_iff_ge] at *
  exact List.le_trans hbc hcd

theorem le_antisymm {c d : Connection} (hcd : c.le d) (hdc : d.le c) : c = d := by
  rw [le, Bool.not_eq_true', List.lex_eq_false_iff_ge] at hcd hdc
  exact parts_injective (List.le_antisymm hcd hdc)

theorem mergeSort_eq_of_perm {cs ds : List Connection} (h : cs.Perm ds) :
    cs.mergeSort le = ds.mergeSort le := by
  have hsorted (cs : List Connection) : (cs.mergeSort le).Pairwise (fun c d ↦ c.le d) :=
    List.pairwise_mergeSort le_trans le_total cs
  apply List.Perm.eq_of_pairwise (fun _ _ _ _ ↦ le_antisymm) (hsorted cs) (hsorted ds)
  exact (List.mergeSort_perm cs le).trans (h.trans (List.mergeSort_perm ds le).symm)

end Connection

namespace Node

/-- What of a node belongs to the structure of its document. -/
def signature (n : Node) : String × String × Category :=
  (n.id, n.toolType, n.category)

/-- The texts in which a signature is written. -/
def signatureParts (s : String × String × Category) : List String :=
  [s.1, s.2.1, s.2.2.name]

theorem map_parts_eq (ns : List Node) :
    ns.map parts = (ns.map signature).map signatureParts := by
  rw [List.map_map]
  rfl

/-- Nodes in the order of their identifiers. -/
def sorted (ns : List Node) : List Node :=
  ns.mergeSort (fun m n ↦ m.id ≤ n.id)

theorem sorted_perm (ns : List Node) : (sorted ns).Perm ns :=
  List.mergeSort_perm ..

theorem pairwise_sorted (ns : List Node) : (sorted ns).Pairwise (fun m n ↦ m.id ≤ n.id) := by
  have htrans (l m n : Node) (hlm : decide (l.id ≤ m.id)) (hmn : decide (m.id ≤ n.id)) :
      decide (l.id ≤ n.id) :=
    decide_eq_true (String.le_trans (of_decide_eq_true hlm) (of_decide_eq_true hmn))
  have htotal (m n : Node) : decide (m.id ≤ n.id) || decide (n.id ≤ m.id) := by
    simpa using String.le_total m.id n.id
  exact (List.pairwise_mergeSort htrans htotal ns).imp of_decide_eq_true

theorem map_signature_sorted_eq {ms ns : List Node} (hdistinct : (ms.map id).Nodup)
    (h : (ms.map signature).Perm (ns.map signature)) :
    (sorted ms).map signature = (sorted ns).map signature := by
  have hpairwise (ns : List Node) :
      ((sorted ns).map signature).Pairwise (fun s t ↦ s.1 ≤ t.1) :=
    List.pairwise_map.2 (pairwise_sorted ns)
  have hms : ((sorted ms).map signature).Perm (ms.map signature) := (sorted_perm ms).map signature
  have hns : ((sorted ns).map signature).Perm (ns.map signature) := (sorted_perm ns).map signature
  have hids : ((ms.map signature).map Prod.fst).Nodup := by
    rw [List.map_map]
    exact hdistinct
  apply List.Perm.eq_of_pairwise _ (hpairwise ms) (hpairwise ns) (hms.trans (h.trans hns.symm))
  -- a signature in one of the lists is the only one with its identifier
  intro s t hs ht hst hts
  have hs' := hms.subset hs
  have ht' := h.symm.subset (hns.subset ht)
  exact List.inj_on_of_nodup_map hids hs' ht' (String.le_antisymm hst hts)

end Node

namespace Document

/-- Two documents have the same nodes, as far as these belong to the structure, and the same
connections, each as often. -/
structure SameStructure (d e : Document) : Prop where
  nodes : (d.nodes.map Node.signature).Perm (e.nodes.map Node.signature)
  connections : d.connections.Perm e.connections

/-- The records that make up the text of a document's structure, in order: those of the nodes with
three texts each, then those of the connections with four. -/
def records (d : Document) : List (List String) :=
  (Node.sorted d.nodes).map Node.parts ++
    (d.connections.mergeSort Connection.le).map Connection.parts

theorem structureText_eq (d : Document) : d.structureText = String.join d.records.flatten := by
  simp only [structureText, records, List.flatten_append, List.flatMap_def, Node.sorted]

variable {d e : Document}

theorem records_eq_of_sameStructure (hdistinct : (d.nodes.map Node.id).Nodup)
    (h : d.SameStructure e) : d.records = e.records := by
  rw [records, records, Node.map_parts_eq, Node.map_parts_eq,
    Node.map_signature_sorted_eq hdistinct h.nodes, Connection.mergeSort_eq_of_perm h.connections]

/-- Two documents of the same structure have the same fingerprint if identifiers are distinct,
however their nodes and connections are arranged and whatever else they say. -/
theorem fingerprint_eq_of_sameStructure (hdistinct : (d.nodes.map Node.id).Nodup)
    (h : d.SameStructure e) : d.fingerprint = e.fingerprint := by
  rw [fingerprint, fingerprint, structureText_eq, structureText_eq,
    records_eq_of_sameStructure hdistinct h]

/-- A macro with a connection that is written twice. -/
def tidyMacro : Document where
  name := "Clean"
  path := ⟨"lib/Clean.yxmc"⟩
  description := none
  nodes :=
    [.plain "1" .macroInput "in", { Node.plain "2" .formula "trim" with toolType := "Formula" },
     .plain "10" .macroOutput "out"]
  connections :=
    [⟨⟨"1", "Output"⟩, ⟨"2", "Input"⟩⟩, ⟨⟨"2", "Output"⟩, ⟨"10", "Input"⟩⟩,
     ⟨⟨"1", "Output"⟩, ⟨"2", "Input"⟩⟩]

/-- The same macro in another file, in another arrangement and with other settings. -/
def shuffledMacro : Document where
  name := "Clean (copy)"
  path := ⟨"Clean copy.yxmc"⟩
  description := some "trims"
  nodes :=
    [.plain "10" .macroOutput "result",
     { Node.plain "2" .formula "trim all" with
       toolType := "Formula"
       config := [("Expression", .text "Trim([a])")]
       annotation := some "blanks" },
     { Node.plain "1" .macroInput "source" with outputAnchors := ["Output"] }]
  connections :=
    [⟨⟨"1", "Output"⟩, ⟨"2", "Input"⟩⟩, ⟨⟨"1", "Output"⟩, ⟨"2", "Input"⟩⟩,
     ⟨⟨"2", "Output"⟩, ⟨"10", "Input"⟩⟩]

theorem fingerprint_eq_of_sameStructure_shuffled :
    (tidyMacro.nodes.map Node.id).Nodup ∧ tidyMacro.SameStructure shuffledMacro ∧
      tidyMacro.fingerprint = shuffledMacro.fingerprint := by
  have hdistinct : (tidyMacro.nodes.map Node.id).Nodup := by decide
  have hsame : tidyMacro.SameStructure shuffledMacro := ⟨by decide, by decide⟩
  exact ⟨hdistinct, hsame, fingerprint_eq_of_sameStructure hdistinct hsame⟩

end Document

end Provenance
