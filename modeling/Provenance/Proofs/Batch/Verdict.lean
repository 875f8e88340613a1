import Provenance.Batch

/-!
# What a file adds to a batch

A file adds one graph or one failure, at the end (`Pipeline.graphs_process`,
`Pipeline.failures_process`). Which of them, and what it says, depends on the file and on the memory
alone, not on what is in the batch already (`Pipeline.verdict`).
-/

namespace Provenance

/-- The graph of an expanded document from a file, or the reason why it has none. -/
def Outcome.verdict (config : Config) (path : Path) (o : Outcome) : Except Failure Graph :=
  if o.isFatal then
    .error ⟨path, some o.document.name, .cyclicMacro, Batch.cycleMessage o.issues⟩
  else
    match o.document.graph with
    | .ok g => .ok (g.classify config.layers)
    | .error e => .error ⟨path, some o.document.name, e.kind, e.message o.document.name⟩

/-- The failure among a graph and a failure. -/
def failure? : Except Failure Graph → Option Failure
  | .ok _ => none
  | .error failure => some failure

/-- The file that gave no graph, and the kind of reason. -/
def Failure.brief (failure : Failure) : Path × FailureKind :=
  (failure.path, failure.kind)

namespace Batch

/-- The files that gave no graph, and the kinds of reasons. -/
def briefs (b : Batch) : List (Path × FailureKind) :=
  b.failures.map Failure.brief

theorem graphs_addDocument (config : Config) (path : Path) (o : Outcome) (b : Batch) :
    (b.addDocument config path o).graphs =
      b.graphs ++ (o.verdict config path).toOption.toList := by
  unfold addDocument Outcome.verdict
  dsimp only
  cases hfatal : o.isFatal with
  | true => simp [fail, report, Except.toOption]
  | false => cases hgraph : o.document.graph <;> simp [fail, report, Except.toOption]

theorem failures_addDocument (config : Config) (path : Path) (o : Outcome) (b : Batch) :
    (b.addDocument config path o).failures =
      b.failures ++ (failure? (o.verdict config path)).toList := by
  unfold addDocument Outcome.verdict
  dsimp only
  cases hfatal : o.isFatal with
  | true => simp [fail, report, failure?]
  | false => cases hgraph : o.document.graph <;> simp [fail, report, failure?]

end Batch

namespace Pipeline

variable {σ : Type} (p : Pipeline σ)

/-- The graph that a file adds, or the failure. -/
def verdict (s : Session σ) (path : Path) : Except Failure Graph :=
  match p.resolver.load path with
  | .error e => .error ⟨path, none, .loadError, e.message⟩
  | .ok d => (p.resolver.resolve d s).1.verdict p.config path

theorem graphs_process (b : Batch) (s : Session σ) (path : Path) :
    (p.process (b, s) path).1.graphs = b.graphs ++ (p.verdict s path).toOption.toList := by
  unfold process verdict Resolver.resolveFile
  cases hload : p.resolver.load path with
  | error e => simp [Batch.addLoadError, Batch.fail, Batch.report, Except.toOption]
  | ok d => simp [Batch.addOutcome, Batch.graphs_addDocument]

theorem failures_process (b : Batch) (s : Session σ) (path : Path) :
    (p.process (b, s) path).1.failures = b.failures ++ (failure? (p.verdict s path)).toList := by
  unfold process verdict Resolver.resolveFile
  cases hload : p.resolver.load path with
  | error e => simp [Batch.addLoadError, Batch.fail, Batch.report, failure?]
  | ok d => simp [Batch.addOutcome, Batch.failures_addDocument]

theorem briefs_process (b : Batch) (s : Session σ) (path : Path) :
    (p.process (b, s) path).1.briefs =
      b.briefs ++ ((failure? (p.verdict s path)).map Failure.brief).toList := by
  rw [Batch.briefs, failures_process, List.map_append, ← Option.toList_map, Batch.briefs]

variable {p}

theorem session_process_of_load {b : Batch} {s : Session σ} {path : Path} {d : Document}
    (hload : p.resolver.load path = .ok d) :
    (p.process (b, s) path).2 = (p.resolver.resolve d s).2 := by
  simp [process, Resolver.resolveFile, hload]

theorem verdict_of_load {s : Session σ} {path : Path} {d : Document}
    (hload : p.resolver.load path = .ok d) :
    p.verdict s path = (p.resolver.resolve d s).1.verdict p.config path := by
  rw [verdict, hload]

end Pipeline

end Provenance
