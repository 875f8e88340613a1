import Provenance.Batch.Json
import Provenance.Proofs.Batch.Verdict
import Provenance.Proofs.Graph.CycleReport
import Provenance.Proofs.Graph.OfDocument
import Provenance.Proofs.Report.Counters

/-!
# What a batch accounts for

A batch lists a graph or a failure for each file, the issues of each document that could be loaded,
and a diagnostic for each issue and for each fault that keeps a file without a graph, in the order
of the files and at the configured severities (`Pipeline.Accounts`). Every file adds its part
(`Accounts.process`), so that nothing is forgotten or told twice in a run (`accounts_run`).
-/

open Relation

namespace Provenance

/-- Whether diagnostics with a code are about calls that could not be replaced. -/
def Code.isMacro : Code → Bool
  | .macroMissing | .macroCyclic | .macroAnchorMismatch | .macroMalformed | .macroSkipped => true
  | _ => false

/-- What a diagnostic is about: its code and the place. -/
abbrev Subject := Code × Option Location

def Diagnostic.subject (d : Diagnostic) : Subject :=
  (d.code, d.location)

namespace Issue

/-- What the diagnostic for an issue is about: why the call could not be replaced, and the
placeholder in its document. -/
def subject (i : Issue) : Subject :=
  let code :=
    match i.gap with
    | .missing => Code.macroMissing
    | .skipped => .macroSkipped
    | .malformed _ => .macroMalformed
    | .anchorMismatch _ _ => .macroAnchorMismatch
    | .cyclic _ => .macroCyclic
  (code, some ⟨i.document.text, some i.node⟩)

theorem subject_diagnostic (i : Issue) : i.diagnostic.subject = i.subject := by
  unfold diagnostic subject code
  cases i.gap <;> rfl

theorem isMacro_subject (i : Issue) : i.subject.1.isMacro = true := by
  unfold subject
  cases i.gap <;> rfl

/-- A document in which a call leads back to its own file is not looked into further. -/
theorem isFatal_iff (i : Issue) : i.isFatal = true ↔ ∃ chain, i.gap = .cyclic chain := by
  unfold isFatal
  cases i.gap <;> simp [Gap.isFatal]

end Issue

namespace GraphError

/-- What the diagnostics for a document without a graph are about. -/
def subjects (file : String) : GraphError → List Subject
  | duplicateNodes ids => ids.map (fun id ↦ (.duplicateNode, some ⟨file, some id⟩))
  | danglingConnections dangling =>
    dangling.map (fun entry ↦ (.danglingConnection, some ⟨file, some entry.missing⟩))
  | structuralCycle report => [(.structuralCycle, some ⟨file, report.cycle.head?⟩)]

theorem subject_diagnostics (file workflow : String) (e : GraphError) :
    (e.diagnostics file workflow).map Diagnostic.subject = e.subjects file := by
  cases e <;> simp [diagnostics, subjects, Diagnostic.subject, Diagnostic.ofCode,
    Diagnostic.atPlace]

theorem isMacro_of_mem_diagnostics (file workflow : String) (e : GraphError) :
    ∀ d ∈ e.diagnostics file workflow, d.code.isMacro = false := by
  cases e <;> simp [diagnostics, Diagnostic.ofCode, Diagnostic.atPlace, Code.isMacro]

end GraphError

namespace Outcome

/-- What the diagnostics for an expanded document from a file are about, apart from its issues. A
document with a cyclic call is not looked into further. -/
def faults (file : String) (o : Outcome) : List Subject :=
  if o.isFatal then []
  else
    match o.document.graph with
    | .ok _ => []
    | .error e => e.subjects file

end Outcome

namespace Document

/-- The ends of connections that are no node, the source of a connection before its target. -/
def looseEnds (d : Document) : List String :=
  d.connections.flatMap (fun c ↦
    [c.source.node, c.target.node].filter (· ∉ d.nodes.map Node.id))

theorem map_missing_dangling (d : Document) : d.dangling.map Dangling.missing = d.looseEnds := by
  have hnode (id : String) : (!d.hasNode id) = decide (id ∉ d.nodes.map Node.id) := by
    rw [decide_not]
    refine congrArg not (Bool.eq_iff_iff.2 ?_)
    rw [hasNode_iff, decide_eq_true_iff, List.mem_map]
  simp [dangling, looseEnds, List.map_flatMap, Function.comp_def, hnode]

theorem looseEnds_eq_nil_iff {d : Document} : d.looseEnds = [] ↔ d.dangling = [] := by
  rw [← map_missing_dangling, List.map_eq_nil_iff]

/-- What the faults of a document are for the file that it is from: each identifier that several
nodes have, or else each end of a connection that is no node, or else the stage from which a circle
is told. -/
inductive Faulty (d : Document) (file : String) : List Subject → Prop
  | valid (distinct : d.IdsDistinct) (linked : d.looseEnds = []) (acyclic : d.Acyclic) :
    Faulty d file []
  | duplicates (ids : List String) (nonempty : ids ≠ []) (once : ids.Nodup)
    (shared : ∀ id, id ∈ ids ↔ 1 < (d.nodes.map Node.id).count id) :
    Faulty d file (ids.map (fun id ↦ (.duplicateNode, some ⟨file, some id⟩)))
  | dangling (distinct : d.IdsDistinct) (loose : d.looseEnds ≠ []) :
    Faulty d file (d.looseEnds.map (fun id ↦ (.danglingConnection, some ⟨file, some id⟩)))
  | circle (distinct : d.IdsDistinct) (linked : d.looseEnds = []) (report : CycleReport)
    (order : d.flow.order = .error report) (id : String) (first : report.cycle.head? = some id)
    (circle : TransGen d.Flows id id) :
    Faulty d file [(.structuralCycle, some ⟨file, some id⟩)]

/-- A circle is told from a node that is on it. -/
theorem exists_circle_of_order_eq_error {d : Document} (hdistinct : d.IdsDistinct)
    (hlinked : d.dangling = []) {report : CycleReport} (horder : d.flow.order = .error report) :
    ∃ id, report.cycle.head? = some id ∧ TransGen d.Flows id id := by
  have hjoined := joined_flow hdistinct hlinked
  have hcyclic : ¬d.flow.Acyclic := fun hacyclic ↦ by
    obtain ⟨ids, hids⟩ := (Graph.exists_order_eq_ok_iff (indexed_flow hdistinct).1 hjoined).2 hacyclic
    rw [horder] at hids
    cases hids
  obtain ⟨report', first, rest, horder', hcycle, hreported, -, -⟩ :=
    Graph.order_cycle_shortest (g := d.flow) (.ofLists ..) hjoined hcyclic
  obtain rfl := Except.error.inj (horder.symm.trans horder')
  have hflows : d.flow.Precedes = d.Flows := by
    funext x y
    exact propext (precedes_flow_iff hdistinct)
  have hfirst : first ∈ report.cycle := by rw [hcycle]; exact List.mem_cons_self
  have hcircle := hreported.transGen_links (hreported.subset_of_joined hjoined) hfirst
  rw [Graph.links_eq_precedes hjoined, hflows] at hcircle
  exact ⟨first, by rw [hcycle, List.head?_cons], hcircle⟩

/-- The faults of a document are those that are reported when its graph is made. -/
theorem faulty_graph (d : Document) (file : String) :
    d.Faulty file (match d.graph with | .ok _ => [] | .error e => e.subjects file) := by
  by_cases hdistinct : d.IdsDistinct
  · by_cases hlinked : d.dangling = []
    · have hends := looseEnds_eq_nil_iff.2 hlinked
      rw [graph_of_linked hdistinct hlinked]
      cases horder : d.flow.order with
      | ok ids =>
        exact .valid hdistinct hends ((exists_order_flow_iff hdistinct hlinked).1 ⟨ids, horder⟩)
      | error report =>
        obtain ⟨id, hhead, hcircle⟩ := exists_circle_of_order_eq_error hdistinct hlinked horder
        dsimp only [GraphError.subjects]
        rw [hhead]
        exact .circle hdistinct hends report horder id hhead hcircle
    · rw [graph_of_dangling hdistinct hlinked]
      have hloose : d.Faulty file _ := .dangling hdistinct (mt looseEnds_eq_nil_iff.1 hlinked)
      rwa [← map_missing_dangling, List.map_map] at hloose
  · rw [graph_of_not_distinct hdistinct]
    exact .duplicates _ (mt duplicateIds_eq_nil_iff.1 hdistinct) (nodup_repeated _ _)
      fun id ↦ mem_duplicateIds_iff

end Document

/-! ## Diagnostics for issues and faults -/

/-- Diagnostics for some issues and some faults, each in order, at the configured severities. -/
structure Reports (severities : Severities) (issues : List Issue) (faults : List Subject)
    (diagnostics : List Diagnostic) : Prop where
  issues : (diagnostics.filter (fun d ↦ d.code.isMacro)).map Diagnostic.subject =
    issues.map Issue.subject
  faults : (diagnostics.filter (fun d ↦ !d.code.isMacro)).map Diagnostic.subject = faults
  severity : ∀ d ∈ diagnostics,
    d.severity = (Table.find? d.code.name severities.overrides).getD d.code.severity

namespace Reports

variable {severities : Severities} {issues issues' : List Issue} {faults faults' : List Subject}
  {diagnostics diagnostics' : List Diagnostic}

theorem nil (severities : Severities) : Reports severities [] [] [] :=
  ⟨rfl, rfl, fun _ h ↦ absurd h List.not_mem_nil⟩

theorem append (h : Reports severities issues faults diagnostics)
    (h' : Reports severities issues' faults' diagnostics') :
    Reports severities (issues ++ issues') (faults ++ faults') (diagnostics ++ diagnostics') where
  issues := by rw [List.filter_append, List.map_append, List.map_append, h.issues, h'.issues]
  faults := by rw [List.filter_append, List.map_append, h.faults, h'.faults]
  severity d hd := (List.mem_append.1 hd).elim (h.severity d) (h'.severity d)

/-- One diagnostic for each issue. -/
theorem of_issues (severities : Severities) {f : Issue → Diagnostic}
    (hf : ∀ i, (f i).subject = i.subject) (issues : List Issue) :
    Reports severities issues []
      ((issues.map f).map (fun d ↦ { d with severity := severities.severity d.code })) := by
  have hcode (i : Issue) : (f i).code.isMacro = true := by
    rw [show (f i).code = i.subject.1 from congrArg Prod.fst (hf i)]
    exact i.isMacro_subject
  have hsubject (i : Issue) : ((f i).code, (f i).location) = i.subject := hf i
  constructor <;> simp [List.filter_map, Function.comp_def, hcode, hsubject, Diagnostic.subject]
  exact fun i _ ↦ rfl

/-- One diagnostic for each fault. -/
theorem of_faults (severities : Severities)
    (h : ∀ d ∈ diagnostics, d.code.isMacro = false) :
    Reports severities [] (diagnostics.map Diagnostic.subject)
      (diagnostics.map (fun d ↦ { d with severity := severities.severity d.code })) := by
  constructor
  · simpa [List.filter_map, Function.comp_def] using h
  · have hall : diagnostics.filter (fun d ↦ !d.code.isMacro) = diagnostics :=
      List.filter_eq_self.2 fun d hd ↦ by rw [h d hd, Bool.not_false]
    simp [List.filter_map, Function.comp_def, Diagnostic.subject, hall]
  · rintro _ hd
    obtain ⟨d, -, rfl⟩ := List.mem_map.1 hd
    rfl

end Reports

namespace Batch

/-- What a document gives leaves the rest of the batch as it is. -/
theorem addDocument_eq (config : Config) (path : Path) (o : Outcome) (b : Batch) :
    (b.addDocument config path o).processed = b.processed ∧
      (b.addDocument config path o).issues = b.issues ∧
      (b.addDocument config path o).inventory = b.inventory := by
  unfold addDocument
  dsimp only
  cases o.isFatal <;> cases o.document.graph <;> exact ⟨rfl, rfl, rfl⟩

/-- A document adds a diagnostic for each of its issues and faults. -/
theorem reports_addDocument (config : Config) (path : Path) (o : Outcome) (b : Batch) :
    ∃ diagnostics, (b.addDocument config path o).diagnostics = b.diagnostics ++ diagnostics ∧
      Reports config.severities o.issues (o.faults path.text) diagnostics := by
  have hplain := Reports.of_issues config.severities Issue.subject_diagnostic o.issues
  unfold addDocument Outcome.faults
  dsimp only
  cases o.isFatal with
  | true => exact ⟨_, rfl, hplain⟩
  | false =>
    cases o.document.graph with
    | ok g =>
      have hsubject (i : Issue) :
          (issueDiagnostic (g.classify config.layers) i).subject = i.subject :=
        i.subject_diagnostic
      exact ⟨_, rfl, .of_issues config.severities hsubject o.issues⟩
    | error e =>
      have hfaults := Reports.of_faults config.severities
        (e.isMacro_of_mem_diagnostics path.text o.document.name)
      rw [e.subject_diagnostics] at hfaults
      refine ⟨_, rfl, ?_⟩
      rw [List.map_append]
      simpa using hplain.append hfaults

end Batch

/-! ## The files of a batch -/

/-- A file, and what is remembered when it is taken in. -/
structure Visit (σ : Type) where
  path : Path
  session : Session σ

namespace Pipeline

variable {σ : Type} (p : Pipeline σ)

/-- The memory after a file. -/
def after (s : Session σ) (path : Path) : Session σ :=
  match p.resolver.load path with
  | .error _ => s
  | .ok d => (p.resolver.resolve d s).2

/-- The files of a batch in order. -/
def visits : List Path → Session σ → List (Visit σ)
  | [], _ => []
  | path :: rest, s => ⟨path, s⟩ :: visits rest (p.after s path)

/-- What expansion makes of a file. -/
def outcome (v : Visit σ) : Except LoadError Outcome :=
  (p.resolver.load v.path).map (fun d ↦ (p.resolver.resolve d v.session).1)

/-- The issues of a document that could be loaded. -/
def issues (v : Visit σ) : List Issue :=
  match p.outcome v with
  | .error _ => []
  | .ok o => o.issues

/-- What the diagnostics for a file are about, apart from its issues. -/
def faults (v : Visit σ) : List Subject :=
  match p.outcome v with
  | .error _ => [(.loadError, some ⟨v.path.text, none⟩)]
  | .ok o => o.faults v.path.text

/-- The graph that each file gives, or its failure. -/
def verdicts (visits : List (Visit σ)) : List (Except Failure Graph) :=
  visits.map (fun v ↦ p.verdict v.session v.path)

/-- What the faults of a file are: that it could not be loaded, or those of its document, which is
not looked into if a call in it is cyclic. -/
inductive Faulty (v : Visit σ) : List Subject → Prop
  | unloaded (e : LoadError) (h : p.outcome v = .error e) :
    Faulty v [(.loadError, some ⟨v.path.text, none⟩)]
  | fatal (o : Outcome) (h : p.outcome v = .ok o)
    (hcyclic : ∃ i ∈ o.issues, ∃ chain, i.gap = .cyclic chain) : Faulty v []
  | loaded (o : Outcome) (h : p.outcome v = .ok o)
    (hplain : ∀ i ∈ o.issues, ∀ chain, i.gap ≠ .cyclic chain)
    (faults : List Subject) (hfaults : o.document.Faulty v.path.text faults) : Faulty v faults

theorem faulty_faults (v : Visit σ) : p.Faulty v (p.faults v) := by
  unfold faults
  cases houtcome : p.outcome v with
  | error e => exact .unloaded e houtcome
  | ok o =>
    have hcyclic : o.isFatal = true ↔ ∃ i ∈ o.issues, ∃ chain, i.gap = .cyclic chain := by
      simp only [Outcome.isFatal, List.any_eq_true, Issue.isFatal_iff]
    dsimp only [Outcome.faults]
    cases hfatal : o.isFatal with
    | true => exact .fatal o houtcome (hcyclic.1 hfatal)
    | false =>
      refine .loaded o houtcome (fun i hi chain hgap ↦ ?_) _ (o.document.faulty_graph v.path.text)
      rw [hcyclic.2 ⟨i, hi, chain, hgap⟩] at hfatal
      cases hfatal

theorem path_visits (paths : List Path) (s : Session σ) :
    (p.visits paths s).map Visit.path = paths := by
  induction paths generalizing s with
  | nil => rfl
  | cons path rest ih => rw [visits, List.map_cons, ih]

/-- What a batch holds after some files. -/
structure Accounts (visits : List (Visit σ)) (b : Batch) : Prop where
  processed : b.processed = visits.length
  graphs : b.graphs = (p.verdicts visits).filterMap Except.toOption
  failures : b.failures = (p.verdicts visits).filterMap failure?
  issues : b.issues = visits.flatMap p.issues
  diagnostics : Reports p.config.severities b.issues (visits.flatMap p.faults) b.diagnostics

theorem session_process (b : Batch) (s : Session σ) (path : Path) :
    (p.process (b, s) path).2 = p.after s path := by
  unfold process after Resolver.resolveFile
  cases p.resolver.load path <;> rfl

theorem processed_process (b : Batch) (s : Session σ) (path : Path) :
    (p.process (b, s) path).1.processed = b.processed + 1 := by
  unfold process Resolver.resolveFile
  cases p.resolver.load path with
  | error e => rfl
  | ok d => exact (Batch.addDocument_eq ..).1

theorem issues_process (b : Batch) (v : Visit σ) :
    (p.process (b, v.session) v.path).1.issues = b.issues ++ p.issues v := by
  unfold process issues outcome Resolver.resolveFile
  cases p.resolver.load v.path with
  | error e => exact (List.append_nil _).symm
  | ok d => exact congrArg (· ++ _) (Batch.addDocument_eq ..).2.1

theorem reports_process (b : Batch) (v : Visit σ) :
    ∃ diagnostics, (p.process (b, v.session) v.path).1.diagnostics =
        b.diagnostics ++ diagnostics ∧
      Reports p.config.severities (p.issues v) (p.faults v) diagnostics := by
  unfold process issues faults outcome Resolver.resolveFile
  cases p.resolver.load v.path with
  | error e =>
    have hplain : ∀ d ∈ [(Diagnostic.ofCode .loadError e.message).atPlace v.path.text none],
        d.code.isMacro = false :=
      List.forall_mem_singleton.2 rfl
    exact ⟨_, rfl, .of_faults p.config.severities hplain⟩
  | ok d => exact Batch.reports_addDocument p.config v.path _ _

theorem filterMap_concat {α β : Type} (f : α → Option β) (l : List α) (a : α) :
    (l ++ [a]).filterMap f = l.filterMap f ++ (f a).toList := by
  cases h : f a <;> simp [h]

theorem verdicts_concat (visits : List (Visit σ)) (v : Visit σ) :
    p.verdicts (visits ++ [v]) = p.verdicts visits ++ [p.verdict v.session v.path] :=
  List.map_append

/-- A verdict is either a graph or a failure. -/
theorem length_toOption_add_length_failure? (verdicts : List (Except Failure Graph)) :
    (verdicts.filterMap Except.toOption).length + (verdicts.filterMap failure?).length =
      verdicts.length := by
  induction verdicts with
  | nil => rfl
  | cons verdict rest ih =>
    cases verdict <;> simp [List.filterMap_cons, Except.toOption, failure?, ← ih] <;> omega

namespace Accounts

variable {p} {visits : List (Visit σ)} {b : Batch}

/-- Every file adds its part. -/
theorem process (h : p.Accounts visits b) (v : Visit σ) :
    p.Accounts (visits ++ [v]) (p.process (b, v.session) v.path).1 where
  processed := by rw [processed_process, h.processed, List.length_append, List.length_singleton]
  graphs := by rw [graphs_process, h.graphs, verdicts_concat, filterMap_concat]
  failures := by rw [failures_process, h.failures, verdicts_concat, filterMap_concat]
  issues := by rw [issues_process, h.issues, List.flatMap_append, List.flatMap_singleton]
  diagnostics := by
    obtain ⟨diagnostics, hadded, hreports⟩ := p.reports_process b v
    rw [hadded, issues_process, List.flatMap_append, List.flatMap_singleton]
    exact h.diagnostics.append hreports

theorem foldl (h : p.Accounts visits b) (paths : List Path) (s : Session σ) :
    p.Accounts (visits ++ p.visits paths s) (paths.foldl p.process (b, s)).1 := by
  induction paths generalizing visits b s with
  | nil => simpa [Pipeline.visits] using h
  | cons path rest ih =>
    rw [Pipeline.visits, ← p.session_process b s path, List.append_cons]
    exact ih (h.process ⟨path, s⟩) _

theorem length_eq (h : p.Accounts visits b) :
    b.graphs.length + b.failures.length = visits.length := by
  rw [h.graphs, h.failures, length_toOption_add_length_failure?, verdicts, List.length_map]

end Accounts

/-- A run accounts for each of its files. -/
theorem accounts_run (paths : List Path) (s : Session σ) :
    p.Accounts (p.visits paths s) (p.run paths s).1 :=
  have hempty : p.Accounts [] .empty := ⟨rfl, rfl, rfl, rfl, .nil _⟩
  hempty.foldl paths s

theorem path_of_verdict {s : Session σ} {path : Path} {failure : Failure}
    (h : p.verdict s path = .error failure) : failure.path = path := by
  unfold verdict Outcome.verdict at h
  split at h
  · cases h
    rfl
  · split at h
    · cases h
      rfl
    · split at h <;> cases h
      rfl

end Pipeline

namespace Batch

theorem diagnostics_toReport (b : Batch) (timestamp : String) :
    (b.toReport timestamp).diagnostics = b.diagnostics :=
  Report.diagnostics_foldl_add (.empty timestamp) b.diagnostics

theorem counted_toReport (b : Batch) (timestamp : String) : (b.toReport timestamp).Counted := by
  obtain ⟨htotal, herrors, hwarnings, hinfo⟩ :=
    (Report.counted_empty timestamp).foldl_add b.diagnostics
  exact ⟨htotal, herrors, hwarnings, hinfo⟩

end Batch

namespace Pipeline

/-- A batch accounts for each of its files, in order: it holds a graph or a failure for the file,
the issues of its document, and diagnostics for these and for the faults of the file, and its report
counts the diagnostics by severity. -/
theorem run_accounting {σ : Type} (p : Pipeline σ) (paths : List Path) (s : Session σ)
    (timestamp : String) :
    let visits := p.visits paths s
    let b := (p.run paths s).1
    let report := b.toReport timestamp
    visits.map Visit.path = paths ∧
      b.processed = paths.length ∧ b.graphs.length + b.failures.length = paths.length ∧
      p.Accounts visits b ∧
      (∀ v ∈ visits, p.Faulty v (p.faults v) ∧
        ∀ failure, p.verdict v.session v.path = .error failure → failure.path = v.path) ∧
      report.diagnostics = b.diagnostics ∧ report.Counted ∧
      report.summary.total =
        report.summary.errors + report.summary.warnings + report.summary.info := by
  have haccounts := p.accounts_run paths s
  have hpaths := p.path_visits paths s
  have hlength : (p.visits paths s).length = paths.length := by
    rw [← List.length_map (f := Visit.path), hpaths]
  have hcounted := (p.run paths s).1.counted_toReport timestamp
  exact ⟨hpaths, haccounts.processed.trans hlength, haccounts.length_eq.trans hlength, haccounts,
    fun v _ ↦ ⟨p.faulty_faults v, fun failure ↦ p.path_of_verdict⟩,
    (p.run paths s).1.diagnostics_toReport timestamp, hcounted, hcounted.total_eq⟩

/-! ## A batch with every kind of fault -/

section

variable {σ : Type} (p : Pipeline σ)

/-- Takes in a file whose expansion ends within some steps. -/
def processWithin? (count : ℕ) (state : Batch × Session σ) (path : Path) :
    Option (Batch × Session σ) :=
  match p.resolver.load path with
  | .error _ => some (p.process state path)
  | .ok d =>
    let done := p.resolver.advance count (.start d (p.resolver.files.canonical d.path) state.2)
    let b := { state.1 with processed := state.1.processed + 1 }
    if (p.resolver.step done).isNone then
      some (b.addOutcome p.config path done.current.outcome done.session.context, done.session)
    else none

variable {p}

theorem process_of_processWithin? {count : ℕ} {state state' : Batch × Session σ} {path : Path}
    (h : p.processWithin? count state path = some state') : p.process state path = state' := by
  unfold processWithin? at h
  cases hload : p.resolver.load path with
  | error e =>
    rw [hload] at h
    exact Option.some.inj h
  | ok d =>
    rw [hload] at h
    obtain ⟨hdone, hstate⟩ := Option.ite_none_right_eq_some.1 h
    have hresolve := Resolver.resolve_eq_of_advance rfl (Option.isNone_iff_eq_none.1 hdone)
    simp only [process, Resolver.resolveFile, hload, hresolve]
    exact Option.some.inj hstate

theorem foldl_process_of_processWithin? {count : ℕ} {paths : List Path}
    {state done : Batch × Session σ} (h : paths.foldlM (p.processWithin? count) state = some done) :
    paths.foldl p.process state = done := by
  induction paths generalizing state with
  | nil => exact Option.some.inj h
  | cons path rest ih =>
    rw [List.foldlM_cons] at h
    obtain ⟨next, hnext, hrest⟩ := Option.bind_eq_some_iff.1 h
    rw [List.foldl_cons, process_of_processWithin? hnext]
    exact ih hrest

/-- What can be said of a run whose expansions end within some steps. -/
theorem run_of_processWithin? (count : ℕ) {paths : List Path} {s : Session σ} {α : Type}
    {f : Batch → α} {a : α}
    (h : (paths.foldlM (p.processWithin? count) (.empty, s)).map (fun done ↦ f done.1) = some a) :
    f (p.run paths s).1 = a := by
  obtain ⟨done, hdone, rfl⟩ := Option.map_eq_some_iff.1 h
  rw [run, foldl_process_of_processWithin? hdone]

end

end Pipeline

/-- A batch in short, and the numbers of its report. -/
structure Batch.Outline where
  graphs : List String
  failures : List (String × FailureKind)
  issues : List (String × String)
  diagnostics : List (String × Option Location × Severity)
  summary : Report.Summary
  deriving DecidableEq

def Batch.outline (b : Batch) : Outline where
  graphs := b.graphs.map Graph.name
  failures := b.failures.map (fun failure ↦ (failure.path.text, failure.kind))
  issues := b.issues.map (fun i ↦ (i.document.text, i.node))
  diagnostics := b.diagnostics.map (fun d ↦ (d.code.name, d.location, d.severity))
  summary := (b.toReport "").summary

namespace Pipeline

/-- The files of the macros that are found. -/
def faultyFiles : FileSystem :=
  ["Bad.yxmc", "Loop.yxmc", "Wide.yxmc"].foldl
    (fun fs name ↦ fs.put [name] (.file ⟨#[]⟩) trivial) (.empty [])

/-- Four calls that cannot be replaced for different reasons, a call of a macro that calls itself, an
identifier of two nodes, connections from and to nodes that do not exist, and a circle. -/
def faultyDocuments : List Document :=
  let tool (id : String) : Node := .plain id .formula "Formula"
  let call (id name : String) : Node := .call id (.named name)
  let wire (source target : String) : Connection := ⟨⟨source, "Output"⟩, ⟨target, "Input"⟩⟩
  [⟨"Calls", ⟨"/Calls.yxmd"⟩, none,
      [call "1" "Gone", call "2" "Left", call "3" "Bad", call "4" "Wide"], []⟩,
    ⟨"Round", ⟨"/Round.yxmd"⟩, none, [call "1" "Loop"], []⟩,
    ⟨"Twice", ⟨"/Twice.yxmd"⟩, none, [tool "1", call "2" "Gone", tool "1"], []⟩,
    ⟨"Loose", ⟨"/Loose.yxmd"⟩, none, [tool "1"], [wire "1" "9", wire "8" "7"]⟩,
    ⟨"Ring", ⟨"/Ring.yxmd"⟩, none, [tool "1", tool "2"], [wire "1" "2", wire "2" "1"]⟩,
    ⟨"Loop", ⟨"/Loop.yxmc"⟩, none, [call "1" "Loop"], []⟩,
    ⟨"Wide", ⟨"/Wide.yxmc"⟩, none, [.plain "1" .macroInput "Macro Input"], []⟩]

/-- Two codes have severities of their own. -/
def faultyPipeline : Pipeline (List (Option Answer)) where
  resolver :=
    { files := faultyFiles
      load := fun path ↦
        match faultyDocuments.find? (fun d ↦ d.path.text = path.text) with
        | some d => .ok d
        | none => .error (.unsupported path)
      options := ⟨.everywhere, 3⟩
      operator := .ofPrompt Operator.script }
  config :=
    { Config.default ⟨"/"⟩ with
      severities := ⟨[("MACRO_MISSING", .error), ("WORKFLOW_LOAD_ERROR", .info)]⟩ }

def faultyPaths : List Path :=
  ["/Calls.yxmd", "/None.yxmd", "/Round.yxmd", "/Twice.yxmd", "/Loose.yxmd", "/Ring.yxmd"].map
    Path.mk

/-- The operator does not know the first macro, and skips the second one. -/
def faultyStart : Session (List (Option Answer)) :=
  ⟨.start [], [some .decline, some .skip]⟩

/-- One graph, five failures, and all codes of issues and faults. -/
theorem run_accounting_faulty :
    let b := (faultyPipeline.run faultyPaths faultyStart).1
    faultyPipeline.Accounts (faultyPipeline.visits faultyPaths faultyStart) b ∧
      b.outline =
        { graphs := ["Calls"]
          failures :=
            [("/None.yxmd", .loadError), ("/Round.yxmd", .cyclicMacro),
              ("/Twice.yxmd", .duplicateNode), ("/Loose.yxmd", .danglingConnection),
              ("/Ring.yxmd", .structuralCycle)]
          issues :=
            [("/Calls.yxmd", "1"), ("/Calls.yxmd", "2"), ("/Calls.yxmd", "3"),
              ("/Calls.yxmd", "4"), ("/Round.yxmd", "1/1"), ("/Twice.yxmd", "2")]
          diagnostics :=
            [("MACRO_MISSING", some ⟨"/Calls.yxmd", some "1"⟩, .error),
              ("MACRO_SKIPPED", some ⟨"/Calls.yxmd", some "2"⟩, .warn),
              ("MACRO_MALFORMED_SOURCE", some ⟨"/Calls.yxmd", some "3"⟩, .warn),
              ("MACRO_PORT_ARITY_MISMATCH", some ⟨"/Calls.yxmd", some "4"⟩, .warn),
              ("WORKFLOW_LOAD_ERROR", some ⟨"/None.yxmd", none⟩, .info),
              ("MACRO_CYCLIC_RESOLUTION", some ⟨"/Round.yxmd", some "1/1"⟩, .error),
              ("MACRO_MISSING", some ⟨"/Twice.yxmd", some "2"⟩, .error),
              ("WORKFLOW_DUPLICATE_NODE", some ⟨"/Twice.yxmd", some "1"⟩, .error),
              ("WORKFLOW_DANGLING_CONNECTION", some ⟨"/Loose.yxmd", some "9"⟩, .error),
              ("WORKFLOW_DANGLING_CONNECTION", some ⟨"/Loose.yxmd", some "8"⟩, .error),
              ("WORKFLOW_DANGLING_CONNECTION", some ⟨"/Loose.yxmd", some "7"⟩, .error),
              ("LINEAGE_STRUCTURAL_CYCLE", some ⟨"/Ring.yxmd", some "1"⟩, .error)]
          summary := ⟨12, 8, 3, 1, 6, 1, 5⟩ } := by
  obtain ⟨-, -, -, haccounts, -⟩ := faultyPipeline.run_accounting faultyPaths faultyStart ""
  exact ⟨haccounts, run_of_processWithin? 6 (by decide +kernel)⟩

end Pipeline

end Provenance
