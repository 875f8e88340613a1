import Provenance.Proofs.Batch.Verdict
import Provenance.Proofs.Expansion.Once
import Provenance.Proofs.Expansion.WellFormed
import Provenance.Proofs.Graph.OfDocument

/-!
# Well-formed files give graphs

If the documents that are opened are well-formed, a file that can be loaded gives a graph, whatever
becomes of its calls, unless one of them leads back to a file that it is part of: what expansion
makes of the document is valid, and a valid document has a graph.
-/

namespace Provenance

namespace Pipeline

variable {σ : Type} {p : Pipeline σ}

/-- A well-formed document adds its graph and no failure, or one failure because of a cyclic call
and no graph. -/
theorem process_wellFormed {folders : List Path} {earlier : List Document} {s : Session σ}
    (hs : Resolver.History (fun r ↦ r.load = p.resolver.load) folders earlier s) {path : Path}
    {d : Document} (hload : p.resolver.load path = .ok d) (hd : d.WellFormed) (b : Batch)
    (hopened : ∀ file ∈ (p.process (b, s) path).2.context.opened,
      p.resolver.FileWellFormed file) :
    ((p.resolver.resolve d s).1.isFatal = false ∧
        (p.process (b, s) path).1.failures = b.failures ∧
        (p.process (b, s) path).1.graphs =
          b.graphs ++ [(p.resolver.resolve d s).1.document.flow.classify p.config.layers]) ∨
      ((p.resolver.resolve d s).1.isFatal = true ∧
        (p.process (b, s) path).1.graphs = b.graphs ∧
        ∃ failure, failure.path = path ∧ failure.kind = .cyclicMacro ∧
          (p.process (b, s) path).1.failures = b.failures ++ [failure]) := by
  rw [session_process_of_load hload] at hopened
  have hgraph := (Resolver.valid_resolve hs hd hopened).graph_eq_ok
  rw [graphs_process, failures_process, verdict_of_load hload, Outcome.verdict, hgraph]
  cases hfatal : (p.resolver.resolve d s).1.isFatal with
  | false => exact .inl ⟨rfl, List.append_nil _, rfl⟩
  | true => exact .inr ⟨rfl, List.append_nil _, _, rfl, rfl, rfl⟩

/-- A macro of one step. -/
def cleanMacro : Document where
  name := "A"
  path := ⟨"/A.yxmc"⟩
  description := none
  nodes := [.plain "1" .macroInput "in", .plain "2" .formula "trim", .plain "3" .macroOutput "out"]
  connections := [⟨⟨"1", "Output"⟩, ⟨"2", "Input"⟩⟩, ⟨⟨"2", "Output"⟩, ⟨"3", "Input"⟩⟩]

/-- A workflow that calls the macro, and then one that there is no file of. -/
def cleanCaller : Document where
  name := "D"
  path := ⟨"/D.yxmd"⟩
  description := none
  nodes :=
    [.plain "1" .input "in",
     { Node.call "2" (.named "A") with inputAnchors := ["Input"], outputAnchors := ["Output"] },
     { Node.call "3" (.named "C") with inputAnchors := ["Input"] }]
  connections := [⟨⟨"1", "Output"⟩, ⟨"2", "Input"⟩⟩, ⟨⟨"2", "Output"⟩, ⟨"3", "Input"⟩⟩]

/-- The pipeline for the workflow. -/
def cleanPipeline : Pipeline Unit where
  resolver :=
    { files := Resolver.pairFiles
      load := fun path ↦
        if path.text = "/A.yxmc" then .ok cleanMacro
        else if path.text = "/D.yxmd" then .ok cleanCaller
        else .error (.unsupported path)
      options := ⟨.everywhere, 3⟩
      operator := .absent }
  config := .default ⟨"/"⟩

theorem wellFormed_clean : cleanMacro.WellFormed ∧ cleanCaller.WellFormed := by
  have hdistinct : cleanMacro.IdsDistinct ∧ cleanCaller.IdsDistinct := by decide +kernel
  have hlinked : cleanMacro.dangling = [] ∧ cleanCaller.dangling = [] := by decide +kernel
  have hforward : (∀ c ∈ cleanMacro.connections, c.source.node < c.target.node) ∧
      ∀ c ∈ cleanCaller.connections, c.source.node < c.target.node := by
    decide +kernel
  have hplain : (∀ n ∈ cleanMacro.nodes, '/' ∉ n.id.toList) ∧
      ∀ n ∈ cleanCaller.nodes, '/' ∉ n.id.toList := by
    decide +kernel
  exact ⟨⟨⟨hdistinct.1, hlinked.1, Document.acyclic_of_lt hforward.1⟩, hplain.1⟩,
    ⟨⟨hdistinct.2, hlinked.2, Document.acyclic_of_lt hforward.2⟩, hplain.2⟩⟩

theorem fileWellFormed_clean (file : Path) : cleanPipeline.resolver.FileWellFormed file := by
  intro d hd
  dsimp only [cleanPipeline] at hd
  split at hd
  · cases hd
    exact wellFormed_clean.1
  · split at hd
    · cases hd
      exact wellFormed_clean.2
    · cases hd

theorem process_wellFormed_clean :
    Resolver.History (fun r ↦ r.load = cleanPipeline.resolver.load) [] [] ⟨.start [], ()⟩ ∧
      cleanPipeline.resolver.load ⟨"/D.yxmd"⟩ = .ok cleanCaller ∧ cleanCaller.WellFormed ∧
      (∀ file ∈ (cleanPipeline.process (.empty, ⟨.start [], ()⟩) ⟨"/D.yxmd"⟩).2.context.opened,
        cleanPipeline.resolver.FileWellFormed file) ∧
      (((cleanPipeline.resolver.resolve cleanCaller ⟨.start [], ()⟩).1.isFatal = false ∧
          (cleanPipeline.process (.empty, ⟨.start [], ()⟩) ⟨"/D.yxmd"⟩).1.failures = [] ∧
          (cleanPipeline.process (.empty, ⟨.start [], ()⟩) ⟨"/D.yxmd"⟩).1.graphs =
            [] ++ [(cleanPipeline.resolver.resolve cleanCaller
              ⟨.start [], ()⟩).1.document.flow.classify cleanPipeline.config.layers]) ∨
        ((cleanPipeline.resolver.resolve cleanCaller ⟨.start [], ()⟩).1.isFatal = true ∧
          (cleanPipeline.process (.empty, ⟨.start [], ()⟩) ⟨"/D.yxmd"⟩).1.graphs = [] ∧
          ∃ failure, failure.path = ⟨"/D.yxmd"⟩ ∧ failure.kind = .cyclicMacro ∧
            (cleanPipeline.process (.empty, ⟨.start [], ()⟩) ⟨"/D.yxmd"⟩).1.failures =
              [] ++ [failure])) ∧
      (cleanPipeline.resolver.resolve cleanCaller ⟨.start [], ()⟩).1.document.nodes.map Node.id =
        ["1", "2/2", "3"] := by
  have hs : Resolver.History (fun r ↦ r.load = cleanPipeline.resolver.load) [] []
      ⟨.start [], ()⟩ := .start ()
  have hload : cleanPipeline.resolver.load ⟨"/D.yxmd"⟩ = .ok cleanCaller := rfl
  have hend : cleanPipeline.resolver.step (cleanPipeline.resolver.advance 3
      (cleanPipeline.resolver.begin cleanCaller ⟨.start [], ()⟩)) = none :=
    Option.isNone_iff_eq_none.1 (by decide +kernel)
  refine ⟨hs, hload, wellFormed_clean.2, fun file _ ↦ fileWellFormed_clean file,
    process_wellFormed hs hload wellFormed_clean.2 .empty fun file _ ↦ fileWellFormed_clean file,
    ?_⟩
  rw [Resolver.resolve_eq_of_advance rfl hend]
  decide +kernel

end Pipeline

end Provenance
