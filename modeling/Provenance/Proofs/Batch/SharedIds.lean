import Provenance.Proofs.Batch.Verdict
import Provenance.Proofs.Expansion.SharedIds
import Provenance.Proofs.Graph.OfDocument

/-!
# Files with a shared identifier give failures

A file in which several nodes have one identifier gives a failure and no graph, unless expansion
takes all of these nodes but one away before the graph is made. It can do so only for calls: whether
a call and a plain node with one identifier are noticed depends on which of them comes first.
-/

namespace Provenance

namespace Pipeline

variable {σ : Type} {p : Pipeline σ}

/-- An expanded document has a graph only if its identifiers are distinct. -/
theorem exists_failure_of_not_distinct {path : Path} {d : Document} {s : Session σ}
    (hload : p.resolver.load path = .ok d)
    (h : ¬(p.resolver.resolve d s).1.document.IdsDistinct) :
    ∃ failure, failure.path = path ∧
      (failure.kind = .cyclicMacro ∨ failure.kind = .duplicateNode) ∧
      p.verdict s path = .error failure := by
  rw [verdict_of_load hload, Outcome.verdict, Document.graph_of_not_distinct h]
  split
  · exact ⟨_, rfl, .inl rfl, rfl⟩
  · exact ⟨_, rfl, .inr rfl, rfl⟩

/-- A file in which an identifier is shared adds a failure and no graph, whatever was added and
remembered before, unless the nodes with the identifier were dissolved into macros. -/
theorem process_of_shared_id {path : Path} {d : Document} {id : String} {s : Session σ}
    (hload : p.resolver.load path = .ok d) (hshared : 1 < (d.namesakes id).length)
    (hkept : ¬d.Dissolves id (p.resolver.resolve d s).1 (p.resolver.resolve d s).2.context)
    (b : Batch) :
    (p.process (b, s) path).1.graphs = b.graphs ∧
      ∃ failure, failure.path = path ∧
        (failure.kind = .cyclicMacro ∨ failure.kind = .duplicateNode) ∧
        (p.process (b, s) path).1.failures = b.failures ++ [failure] := by
  have hids : ¬(p.resolver.resolve d s).1.document.IdsDistinct :=
    fun hdistinct ↦ hkept (Resolver.dissolves_of_distinct_resolve hshared hdistinct)
  obtain ⟨failure, hpath, hkind, hverdict⟩ := exists_failure_of_not_distinct hload hids
  rw [graphs_process, failures_process, hverdict]
  exact ⟨List.append_nil _, failure, hpath, hkind, rfl⟩

/-! ## A call and a plain node with one identifier -/

/-- A workflow of a step and a call, in this order. -/
def stepFirst : Document :=
  ⟨"D", ⟨"/D.yxmd"⟩, none, [.plain "1" .formula "f", .call "1" (.named "A")], []⟩

/-- The same with the call in front. -/
def callFirst : Document :=
  ⟨"D", ⟨"/D.yxmd"⟩, none, [.call "1" (.named "A"), .plain "1" .formula "f"], []⟩

/-- The pipeline for a workflow that calls a macro of one step. -/
def sharedPipeline (d : Document) : Pipeline Unit where
  resolver :=
    { Resolver.pairResolver with
      load := fun path ↦
        if path.text = "/D.yxmd" then .ok d else Resolver.pairResolver.load path }
  config := .default ⟨"/"⟩

theorem process_of_shared_id_step :
    (sharedPipeline stepFirst).resolver.load ⟨"/D.yxmd"⟩ = .ok stepFirst ∧
      1 < (stepFirst.namesakes "1").length ∧
      ¬stepFirst.Dissolves "1"
        ((sharedPipeline stepFirst).resolver.resolve stepFirst ⟨.start [], ()⟩).1
        ((sharedPipeline stepFirst).resolver.resolve stepFirst ⟨.start [], ()⟩).2.context ∧
      ((sharedPipeline stepFirst).process (.empty, ⟨.start [], ()⟩) ⟨"/D.yxmd"⟩).1.graphs = [] ∧
      ∃ failure, failure.path = ⟨"/D.yxmd"⟩ ∧
        (failure.kind = .cyclicMacro ∨ failure.kind = .duplicateNode) ∧
        ((sharedPipeline stepFirst).process (.empty, ⟨.start [], ()⟩) ⟨"/D.yxmd"⟩).1.failures =
          [] ++ [failure] := by
  have hload : (sharedPipeline stepFirst).resolver.load ⟨"/D.yxmd"⟩ = .ok stepFirst := rfl
  have hshared : 1 < (stepFirst.namesakes "1").length := Nat.lt_succ_self 1
  have hstep : .plain "1" .formula "f" ∈ (stepFirst.namesakes "1").dropLast :=
    List.mem_singleton_self _
  have hkept (o : Outcome) (c : Context) : ¬stepFirst.Dissolves "1" o c :=
    fun h ↦ Bool.false_ne_true (h.reference_isSome hstep)
  exact ⟨hload, hshared, hkept _ _, process_of_shared_id hload hshared (hkept _ _) .empty⟩

/-- With the call in front there is a graph and no failure: in the place of the call is a node with
another identifier. -/
theorem process_shared_id_unnoticed :
    (sharedPipeline callFirst).resolver.load ⟨"/D.yxmd"⟩ = .ok callFirst ∧
      1 < (callFirst.namesakes "1").length ∧
      ((sharedPipeline callFirst).process (.empty, ⟨.start [], ()⟩) ⟨"/D.yxmd"⟩).1.graphs.map
        (fun g ↦ g.nodes.map Stage.id) = [["1/1", "1"]] ∧
      ((sharedPipeline callFirst).process (.empty, ⟨.start [], ()⟩) ⟨"/D.yxmd"⟩).1.failures.length =
        0 := by
  have hload : (sharedPipeline callFirst).resolver.load ⟨"/D.yxmd"⟩ = .ok callFirst := rfl
  have hend : (sharedPipeline callFirst).resolver.step ((sharedPipeline callFirst).resolver.advance 3
      ((sharedPipeline callFirst).resolver.begin callFirst ⟨.start [], ()⟩)) = none :=
    Option.isNone_iff_eq_none.1 (by decide +kernel)
  rw [graphs_process, failures_process, verdict_of_load hload,
    Resolver.resolve_eq_of_advance rfl hend]
  exact ⟨hload, by decide +kernel, by decide +kernel, by decide +kernel⟩

end Pipeline

end Provenance
