import Provenance.Proofs.Graph.Index
import Provenance.Proofs.Json.Fields

/-!
# Reading graphs

Stages and edges are read from JSON as they were written, in which every optional field is either left
out or `null` where there is nothing, and kinds of gaps and roles are told apart by name. With numbers
of at most 64 bits the text of a graph is read, and what is read is made of the stages and edges of
the graph (`Graph.ofText?_text`).
-/

namespace Provenance

open Json

theorem Path.ofJson?_toJson (p : Path) : ofJson? p.toJson = some p := rfl

theorem Category.ofJson?_toJson (c : Category) : ofJson? c.toJson = some c :=
  ofName?_name c

theorem Layer.ofJson?_toJson (layer : Layer) : ofJson? layer.toJson = some layer :=
  ofName?_name layer

namespace Gap

/-- The numbers of a gap fit 64 bits. -/
def Fits : Gap → Prop
  | anchorMismatch expected found =>
    expected.inputs ≤ maxWord ∧ expected.outputs ≤ maxWord ∧ found.inputs ≤ maxWord ∧
      found.outputs ≤ maxWord
  | _ => True

instance : DecidablePred Fits
  | anchorMismatch _ _ => inferInstanceAs (Decidable (_ ∧ _ ∧ _ ∧ _))
  | missing | skipped | malformed _ | cyclic _ => .isTrue trivial

theorem ofJson?_toJson {gap : Gap} (h : gap.Fits) : ofJson? gap.toJson = some gap := by
  cases gap with
  | missing => rfl
  | skipped => rfl
  | malformed message => rfl
  | anchorMismatch expected found =>
    obtain ⟨hei, heo, hfi, hfo⟩ := h
    simp [ofJson?, toJson, kind, details, kindOfJson?, detailNames?, record?, repeats, required?,
      field?, text?, anchorMismatchOfJson?, word?_nat, hei, heo, hfi, hfo]
  | cyclic chain =>
    simp [ofJson?, toJson, kind, details, kindOfJson?, detailNames?, record?, repeats, required?,
      field?, text?, texts?_strings]

end Gap

namespace Role

/-- The number of a role fits 64 bits. -/
def Fits : Role → Prop
  | unionMember number => number ≤ maxWord
  | _ => True

instance : DecidablePred Fits
  | unionMember number => inferInstanceAs (Decidable (number ≤ maxWord))
  | data | left | right | anchor _ => .isTrue trivial

theorem ofJson?_toJson {role : Role} (h : role.Fits) : ofJson? role.toJson = some role := by
  cases role with
  | data => rfl
  | left => rfl
  | right => rfl
  | unionMember number => simp [ofJson?, toJson, word?_nat h]
  | anchor name => rfl

end Role

theorem Edge.ofJson?_toJson {e : Edge} (h : e.role.Fits) : ofJson? e.toJson = some e := by
  obtain ⟨source, target, sourceAnchor, targetAnchor, role, branch⟩ := e
  cases branch <;>
    simp [ofJson?, toJson, record?, repeats, required?, optional?, orNull?, field?, text?, present,
      Role.ofJson?_toJson h]

theorem Stage.ofJson?_toJson {s : Stage} (h : ∀ gap ∈ s.gap, gap.Fits) :
    ofJson? s.toJson = some s := by
  obtain ⟨id, origin, name, category, toolType, incomplete, gap, layer⟩ := s
  have hlayer : orNull? Layer.ofJson? (nullable Layer.toJson layer) = some layer := by
    cases layer with
    | none => rfl
    | some layer => exact orNull?_eq_some layer.ofJson?_toJson nofun
  cases gap with
  | none =>
    simp [ofJson?, toJson, record?, repeats, required?, optional?, field?, text?, flag?, present,
      Category.ofJson?_toJson, hlayer]
  | some gap =>
    have hgap := orNull?_eq_some (Gap.ofJson?_toJson (h gap rfl)) nofun
    simp [ofJson?, toJson, record?, repeats, required?, optional?, field?, text?, flag?, present,
      Category.ofJson?_toJson, hlayer, hgap]

/-! ## Texts -/

theorem Gap.readable_toJson {gap : Gap} (h : gap.Fits) {depth : Nat}
    (hdepth : depth + 1 < maxDepth) : gap.toJson.Readable depth := by
  refine ⟨by omega, trivial, ?_⟩
  cases gap with
  | missing | skipped => trivial
  | malformed message => exact ⟨trivial, trivial⟩
  | anchorMismatch expected found =>
    obtain ⟨hei, heo, hfi, hfo⟩ := h
    exact ⟨readable_nat hei, readable_nat hfi, readable_nat heo, readable_nat hfo, trivial⟩
  | cyclic chain => exact ⟨readable_strings chain hdepth, trivial⟩

theorem Role.readable_toJson {role : Role} (h : role.Fits) {depth : Nat}
    (hdepth : depth < maxDepth) : role.toJson.Readable depth := by
  cases role with
  | data | left | right => trivial
  | unionMember number => exact ⟨hdepth, readable_nat h, trivial⟩
  | anchor name => exact ⟨hdepth, trivial, trivial⟩

theorem Edge.readable_toJson {e : Edge} (h : e.role.Fits) {depth : Nat}
    (hdepth : depth + 1 < maxDepth) : e.toJson.Readable depth := by
  have hrole := Role.readable_toJson h hdepth
  refine ⟨by omega, trivial, trivial, trivial, trivial, hrole, ?_⟩
  cases e.branch with
  | none => trivial
  | some branch => exact ⟨trivial, trivial⟩

theorem Stage.readable_toJson {s : Stage} (h : ∀ gap ∈ s.gap, gap.Fits) {depth : Nat}
    (hdepth : depth + 2 < maxDepth) : s.toJson.Readable depth := by
  have hlayer : (nullable Layer.toJson s.layer).Readable (depth + 1) := by
    cases s.layer <;> trivial
  refine ⟨by omega, trivial, trivial, trivial, trivial, trivial, trivial, ?_⟩
  cases hgap : s.gap with
  | none => exact ⟨hlayer, trivial⟩
  | some gap => exact ⟨Gap.readable_toJson (h gap hgap) (by omega), hlayer, trivial⟩

namespace Graph

/-- The numbers in a graph fit 64 bits. -/
structure Fits (g : Graph) : Prop where
  roles : ∀ e ∈ g.edges, e.role.Fits
  gaps : ∀ stage ∈ g.nodes, ∀ gap ∈ stage.gap, gap.Fits

theorem ofJson?_toJson {g : Graph} (h : g.Fits) :
    ofJson? g.toJson = some (ofLists g.name g.source g.nodes g.edges) := by
  have hnodes : list? Stage.ofJson? (.array (g.nodes.map Stage.toJson)) = some g.nodes :=
    list?_map fun stage hstage ↦ Stage.ofJson?_toJson (h.gaps stage hstage)
  have hedges : list? Edge.ofJson? (.array (g.edges.map Edge.toJson)) = some g.edges :=
    list?_map fun e he ↦ Edge.ofJson?_toJson (h.roles e he)
  simp [ofJson?, toJson, record?, repeats, required?, field?, text?, Path.ofJson?_toJson, hnodes,
    hedges]

theorem readable_toJson {g : Graph} (h : g.Fits) : g.toJson.Readable 0 := by
  have hnodes : ReadableItems 2 (g.nodes.map Stage.toJson) :=
    readableItems_map fun stage hstage ↦ Stage.readable_toJson (h.gaps stage hstage) (by decide)
  have hedges : ReadableItems 2 (g.edges.map Edge.toJson) :=
    readableItems_map fun e he ↦ Edge.readable_toJson (h.roles e he) (by decide)
  exact ⟨by decide, trivial, trivial, ⟨by decide, hnodes⟩, ⟨by decide, hedges⟩, trivial⟩

/-- What is read from the text of a graph is made of its stages and edges. -/
theorem ofText?_text {g : Graph} (h : g.Fits) :
    ofText? g.text = some (ofLists g.name g.source g.nodes g.edges) := by
  rw [ofText?, text, read?_indented (readable_toJson h), Option.bind_some, ofJson?_toJson h]

end Graph

end Provenance
