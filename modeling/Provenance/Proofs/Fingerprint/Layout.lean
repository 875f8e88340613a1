import Provenance.Proofs.Fingerprint.Order
import Provenance.Proofs.Text.ByteOrder

/-!
# Fingerprints and where their parts end

The text that a fingerprint is made from has nothing between its parts. So it says what the parts
are only together with their lengths, the layout: two documents with the same text and the same
layout have the same structure (`sameStructure_of_layout_eq`), and where identifiers are distinct
the same structure has one layout (`layout_eq_of_sameStructure`).
-/

namespace Provenance

namespace Text

/-- Two lists that are cut where a property first fails are cut alike. -/
theorem append_inj_of_head {α : Type} {p : α → Bool} {xs ys rest rest' : List α}
    (hxs : ∀ x ∈ xs, p x) (hrest : ∀ x ∈ rest.head?, p x = false) (hys : ∀ y ∈ ys, p y)
    (hrest' : ∀ x ∈ rest'.head?, p x = false) (h : xs ++ rest = ys ++ rest') :
    xs = ys ∧ rest = rest' := by
  have htake {xs rest : List α} (hxs : ∀ x ∈ xs, p x) (hrest : ∀ x ∈ rest.head?, p x = false) :
      (xs ++ rest).takeWhile p = xs := by
    rw [List.takeWhile_append_of_pos hxs]
    cases rest with
    | nil => simp
    | cons x rest => simp [hrest x rfl]
  obtain rfl : xs = ys := by rw [← htake hxs hrest, h, htake hys hrest']
  exact ⟨rfl, List.append_cancel_left h⟩

end Text

namespace Node

theorem signatureParts_injective : Function.Injective signatureParts := by
  rintro ⟨id, tool, category⟩ ⟨id', tool', category'⟩ h
  simp only [signatureParts, List.cons.injEq, and_true] at h
  obtain ⟨rfl, rfl, hname⟩ := h
  have hcategory : some category = some category' := by
    rw [← Category.ofName?_name, hname, Category.ofName?_name]
  rw [Option.some.inj hcategory]

end Node

namespace Document

open scoped List

variable {d e : Document}

/-- The structure can be compared in order. -/
theorem SameStructure.of_sorted
    (hnodes : (Node.sorted d.nodes).map Node.signature = (Node.sorted e.nodes).map Node.signature)
    (hconnections : d.connections.mergeSort Connection.le =
      e.connections.mergeSort Connection.le) : d.SameStructure e where
  nodes := calc
    d.nodes.map Node.signature ~ (Node.sorted d.nodes).map Node.signature :=
      ((Node.sorted_perm _).map _).symm
    _ = (Node.sorted e.nodes).map Node.signature := hnodes
    _ ~ e.nodes.map Node.signature := (Node.sorted_perm _).map _
  connections := calc
    d.connections ~ d.connections.mergeSort Connection.le := (List.mergeSort_perm ..).symm
    _ = e.connections.mergeSort Connection.le := hconnections
    _ ~ e.connections := List.mergeSort_perm ..

/-- The lengths of the texts that make up a document's structure, record by record. -/
def layout (d : Document) : List (List Nat) :=
  d.records.map (fun record ↦ record.map String.length)

theorem toList_structureText (d : Document) :
    d.structureText.toList = (d.records.flatten.map String.toList).flatten := by
  rw [structureText_eq, String.toList_join, List.flatMap_def]

theorem map_length_records (d : Document) :
    d.records.map List.length = d.layout.map List.length := by
  simp [layout, Function.comp_def]

/-- A text and the lengths of its parts determine the parts. -/
theorem records_eq_of_layout_eq (htext : d.structureText = e.structureText)
    (hlayout : d.layout = e.layout) : d.records = e.records := by
  have hchars : d.records.flatten.map String.toList = e.records.flatten.map String.toList := by
    apply List.eq_iff_flatten_eq.2
    refine ⟨by rw [← toList_structureText, ← toList_structureText, htext], ?_⟩
    have hlengths (d : Document) :
        (d.records.flatten.map String.toList).map List.length = d.layout.flatten := by
      simp [layout, List.map_flatten, Function.comp_def, String.length_toList]
    rw [hlengths, hlengths, hlayout]
  apply List.eq_iff_flatten_eq.2
  refine ⟨List.map_injective_iff.2 (fun _ _ ↦ String.toList_inj.1) hchars, ?_⟩
  rw [map_length_records, map_length_records, hlayout]

/-- The records of the nodes and those of the connections are told apart by their lengths. -/
theorem sameStructure_of_records_eq (h : d.records = e.records) : d.SameStructure e := by
  have hnodes (d : Document) : ∀ record ∈ (Node.sorted d.nodes).map Node.parts,
      decide (record.length = 3) := by
    intro record hmem
    obtain ⟨n, -, rfl⟩ := List.mem_map.1 hmem
    rfl
  have hconnections (d : Document) :
      ∀ record ∈ ((d.connections.mergeSort Connection.le).map Connection.parts).head?,
        decide (record.length = 3) = false := by
    intro record hmem
    obtain ⟨c, -, rfl⟩ := List.mem_map.1 (List.mem_of_head? hmem)
    rfl
  obtain ⟨hparts, hends⟩ :=
    Text.append_inj_of_head (hnodes d) (hconnections d) (hnodes e) (hconnections e) h
  rw [Node.map_parts_eq, Node.map_parts_eq] at hparts
  exact .of_sorted (List.map_injective_iff.2 Node.signatureParts_injective hparts)
    (List.map_injective_iff.2 Connection.parts_injective hends)

/-- Two documents of the same text and the same layout have the same structure. -/
theorem sameStructure_of_layout_eq (htext : d.structureText = e.structureText)
    (hlayout : d.layout = e.layout) : d.SameStructure e :=
  sameStructure_of_records_eq (records_eq_of_layout_eq htext hlayout)

theorem layout_eq_of_sameStructure (hdistinct : (d.nodes.map Node.id).Nodup)
    (h : d.SameStructure e) : d.layout = e.layout := by
  rw [layout, layout, records_eq_of_sameStructure hdistinct h]

end Document

end Provenance
