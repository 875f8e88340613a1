import Provenance.CommandLine.Run
import Provenance.Proofs.Batch.Accounting

/-!
# The exit code

If no severities are configured, a diagnostic is an error just when something keeps a file without a
graph: a cyclic call, or a fault of the file (`Reports.exists_error_iff`). So the report on a batch
has errors if and only if some file failed, and a command that has run its batch and written its
results exits with 1 if and only if one of the files that it found gave no graph
(`code_eq_one_iff`).
-/

namespace Provenance

namespace Issue

theorem severity_subject_eq_error_iff (i : Issue) :
    i.subject.1.severity = .error ↔ i.isFatal = true := by
  unfold subject isFatal
  cases i.gap <;> simp [Code.severity, Gap.isFatal]

end Issue

/-- Every fault keeps a file from being built. -/
theorem Document.Faulty.severity {d : Document} {file : String} {faults : List Subject}
    (h : d.Faulty file faults) : ∀ fault ∈ faults, fault.1.severity = .error := by
  cases h <;> simp [Code.severity]

theorem Document.Faulty.eq_nil_iff {d : Document} {file : String} {faults : List Subject}
    (h : d.Faulty file faults) : faults = [] ↔ d.Valid := by
  cases h with
  | valid distinct linked acyclic =>
    exact iff_of_true rfl ⟨distinct, Document.looseEnds_eq_nil_iff.1 linked, acyclic⟩
  | duplicates ids nonempty once shared =>
    refine iff_of_false (mt List.map_eq_nil_iff.1 nonempty) fun hvalid ↦ ?_
    obtain ⟨id, hid⟩ := List.exists_mem_of_ne_nil ids nonempty
    exact absurd ((shared id).1 hid) (List.nodup_iff_count_le_one.1 hvalid.distinct id).not_gt
  | dangling distinct loose =>
    exact iff_of_false (mt List.map_eq_nil_iff.1 loose) fun hvalid ↦
      loose (Document.looseEnds_eq_nil_iff.2 hvalid.linked)
  | circle distinct linked report order id first circle =>
    exact iff_of_false (List.cons_ne_nil _ _) fun hvalid ↦ hvalid.acyclic id circle

theorem Outcome.failure?_verdict_ne_none_iff (config : Config) (path : Path) (o : Outcome) :
    failure? (o.verdict config path) ≠ none ↔
      (∃ i ∈ o.issues, i.isFatal = true) ∨ o.faults path.text ≠ [] := by
  have hissues : (∃ i ∈ o.issues, i.isFatal = true) ↔ o.isFatal = true := List.any_eq_true.symm
  rw [hissues]
  unfold Outcome.verdict Outcome.faults
  cases o.isFatal with
  | true => simp [failure?]
  | false =>
    have hfaulty := o.document.faulty_graph path.text
    cases hgraph : o.document.graph with
    | ok g => simp [failure?]
    | error e =>
      rw [hgraph] at hfaulty
      have hinvalid : ¬o.document.Valid := fun hvalid ↦ by
        rw [hvalid.graph_eq_ok] at hgraph
        cases hgraph
      simpa [failure?] using mt hfaulty.eq_nil_iff.1 hinvalid

namespace Reports

/-- At the severities of the codes, an error is about a fatal issue or a fault. -/
theorem exists_error_iff {severities : Severities} {issues : List Issue} {faults : List Subject}
    {diagnostics : List Diagnostic} (h : Reports severities issues faults diagnostics)
    (hdefault : severities.overrides = [])
    (hfaults : ∀ fault ∈ faults, fault.1.severity = .error) :
    (∃ d ∈ diagnostics, d.severity = .error) ↔
      (∃ i ∈ issues, i.isFatal = true) ∨ faults ≠ [] := by
  have hseverity (d : Diagnostic) (hd : d ∈ diagnostics) : d.severity = d.code.severity := by
    rw [h.severity d hd, hdefault]
    rfl
  constructor
  · rintro ⟨d, hd, herror⟩
    rw [hseverity d hd] at herror
    cases hcall : d.code.isMacro with
    | true =>
      have hmem : d.subject ∈ issues.map Issue.subject := by
        rw [← h.issues]
        exact List.mem_map_of_mem (List.mem_filter.2 ⟨hd, hcall⟩)
      obtain ⟨i, hi, hsubject⟩ := List.mem_map.1 hmem
      have hcode : i.subject.1 = d.code := congrArg Prod.fst hsubject
      exact .inl ⟨i, hi, i.severity_subject_eq_error_iff.1 (hcode ▸ herror)⟩
    | false =>
      have hmem : d.subject ∈ faults := by
        rw [← h.faults]
        exact List.mem_map_of_mem (List.mem_filter.2 ⟨hd, by rw [hcall, Bool.not_false]⟩)
      exact .inr (List.ne_nil_of_mem hmem)
  · rintro (⟨i, hi, hfatal⟩ | hsome)
    · have hmem : i.subject ∈ issues.map Issue.subject := List.mem_map_of_mem hi
      rw [← h.issues] at hmem
      obtain ⟨d, hd, hsubject⟩ := List.mem_map.1 hmem
      have hcode : d.code = i.subject.1 := congrArg Prod.fst hsubject
      refine ⟨d, List.mem_of_mem_filter hd, ?_⟩
      rw [hseverity d (List.mem_of_mem_filter hd), hcode, i.severity_subject_eq_error_iff, hfatal]
    · obtain ⟨fault, hfault⟩ := List.exists_mem_of_ne_nil faults hsome
      have herror := hfaults fault hfault
      rw [← h.faults] at hfault
      obtain ⟨d, hd, rfl⟩ := List.mem_map.1 hfault
      refine ⟨d, List.mem_of_mem_filter hd, ?_⟩
      rw [hseverity d (List.mem_of_mem_filter hd)]
      exact herror

end Reports

theorem failure?_ne_none_iff {verdict : Except Failure Graph} :
    failure? verdict ≠ none ↔ ∀ g, verdict ≠ .ok g := by
  cases verdict <;> simp [failure?]

namespace Pipeline

variable {σ : Type} {p : Pipeline σ}

theorem Faulty.severity {v : Visit σ} {faults : List Subject} (h : p.Faulty v faults) :
    ∀ fault ∈ faults, fault.1.severity = .error := by
  cases h with
  | unloaded e h => exact List.forall_mem_singleton.2 rfl
  | fatal o h hcyclic => exact fun fault hfault ↦ absurd hfault List.not_mem_nil
  | loaded o h hplain faults hfaults => exact hfaults.severity

/-- A file fails because of a fatal issue or a fault. -/
theorem failure?_verdict_ne_none_iff (v : Visit σ) :
    failure? (p.verdict v.session v.path) ≠ none ↔
      (∃ i ∈ p.issues v, i.isFatal = true) ∨ p.faults v ≠ [] := by
  unfold verdict issues faults outcome
  cases p.resolver.load v.path with
  | error e => simp [failure?, Except.map]
  | ok d => exact Outcome.failure?_verdict_ne_none_iff _ _ _

/-- A file that cannot be loaded gives no graph. -/
theorem exists_visit_of_load_eq_error {paths : List Path} {path : Path} {e : LoadError}
    (hload : p.resolver.load path = .error e) (hpath : path ∈ paths) (s : Session σ) :
    ∃ v ∈ p.visits paths s, ∀ g, p.verdict v.session v.path ≠ .ok g := by
  rw [← p.path_visits paths s] at hpath
  obtain ⟨v, hv, rfl⟩ := List.mem_map.1 hpath
  refine ⟨v, hv, fun g hg ↦ ?_⟩
  rw [verdict, hload] at hg
  cases hg

namespace Accounts

variable {visits : List (Visit σ)} {b : Batch} (h : p.Accounts visits b)

include h

theorem failures_ne_nil_iff :
    b.failures ≠ [] ↔ ∃ v ∈ visits, failure? (p.verdict v.session v.path) ≠ none := by
  simp [h.failures, verdicts, List.filterMap_eq_nil_iff]

/-- At the severities of the codes, the report on a batch has errors if and only if a file
failed. -/
theorem hasErrors_iff (hdefault : p.config.severities.overrides = []) (timestamp : String) :
    (b.toReport timestamp).hasErrors = true ↔ b.failures ≠ [] := by
  have hfaults : ∀ fault ∈ visits.flatMap p.faults, fault.1.severity = .error := by
    intro fault hfault
    obtain ⟨v, -, hfault⟩ := List.mem_flatMap.1 hfault
    exact (p.faulty_faults v).severity fault hfault
  have hsplit :
      ((∃ i ∈ visits.flatMap p.issues, i.isFatal = true) ∨ visits.flatMap p.faults ≠ []) ↔
        ∃ v ∈ visits, (∃ i ∈ p.issues v, i.isFatal = true) ∨ p.faults v ≠ [] := by
    constructor
    · rintro (⟨i, hi, hfatal⟩ | hsome)
      · obtain ⟨v, hv, hi⟩ := List.mem_flatMap.1 hi
        exact ⟨v, hv, .inl ⟨i, hi, hfatal⟩⟩
      · obtain ⟨fault, hfault⟩ := List.exists_mem_of_ne_nil _ hsome
        obtain ⟨v, hv, hfault⟩ := List.mem_flatMap.1 hfault
        exact ⟨v, hv, .inr (List.ne_nil_of_mem hfault)⟩
    · rintro ⟨v, hv, ⟨i, hi, hfatal⟩ | hsome⟩
      · exact .inl ⟨i, List.mem_flatMap.2 ⟨v, hv, hi⟩, hfatal⟩
      · exact .inr fun hnone ↦ hsome (List.flatMap_eq_nil_iff.1 hnone v hv)
  rw [(b.counted_toReport timestamp).hasErrors_iff, b.diagnostics_toReport,
    h.diagnostics.exists_error_iff hdefault hfaults, h.issues, hsplit, h.failures_ne_nil_iff]
  simp only [failure?_verdict_ne_none_iff]

end Accounts

end Pipeline

namespace CommandLine

variable {σ : Type}

theorem Effects.files_note (e : Effects σ) (verbose : Bool) (text : String) :
    (e.note verbose text).files = e.files := by
  unfold note
  split <;> rfl

theorem Effects.operator_note (e : Effects σ) (verbose : Bool) (text : String) :
    (e.note verbose text).operator = e.operator := by
  unfold note
  split <;> rfl

/-- The pipeline of a command. -/
def pipeline (operator : Operator σ) (files : FileSystem) (config : Config) (scope : Scope) :
    Pipeline σ :=
  let asks := config.macros.interactive && !scope.nonInteractive && operator.isInteractive
  .ofConfig files { operator with isInteractive := asks } config

/-- What is remembered before the first file of a command. -/
def session (state : σ) (config : Config) (scope : Scope) : Session σ :=
  ⟨.start (config.searchFolders ++ scope.macroFolders), state⟩

/-- The results of a command's batch are written. -/
def Written (timestamp : String) (verbose : Bool) (command : Command) (b : Batch)
    (e : Effects σ) : Prop :=
  let report := b.toReport timestamp
  match command with
  | .lineage _ output reportPath =>
    ∃ e₁ e₂, writeFile "lineage graphs" output (Json.array (b.graphs.map Graph.toJson)).indented e =
        .ok e₁ ∧
      writeReport verbose reportPath report
        (e₁.note verbose s!"Lineage saved to: {output.text}") = .ok e₂
  | .macros _ none => True
  | .macros _ (some path) => ∃ e₁, writeReport verbose path report e = .ok e₁

/-- A command that has written its results ends as its report says. -/
theorem code_finish {timestamp : String} {verbose : Bool} {command : Command} {b : Batch}
    {e : Effects σ} (h : Written timestamp verbose command b e) :
    (finish timestamp verbose command b e).code =
      if (b.toReport timestamp).hasErrors then 1 else 0 := by
  unfold Written at h
  unfold finish
  split at h
  · obtain ⟨e₁, e₂, hgraphs, hreport⟩ := h
    simp only [hgraphs, hreport]
    rfl
  · rfl
  · obtain ⟨e₁, hreport⟩ := h
    simp only [hreport]
    rfl

/-- Reading the settings leaves the files and the operator as they are. -/
theorem readConfig_eq_ok {options : GlobalOptions} {e e' : Effects σ} {config : Config}
    (h : readConfig options e = .ok (config, e')) :
    e'.files = e.files ∧ e'.operator = e.operator := by
  unfold readConfig at h
  dsimp only at h
  split at h
  · split at h <;> cases h
    exact ⟨rfl, rfl⟩
  · split at h
    · split at h <;> cases h
      exact ⟨rfl, rfl⟩
    · cases h
      exact ⟨e.files_note .., e.operator_note ..⟩

/-- A batch that has run is one over the files that were found. -/
theorem runBatch_eq_ok {operator : Operator σ} {verbose : Bool} {config : Config} {scope : Scope}
    {e e' : Effects σ} {b : Batch} (h : runBatch operator verbose config scope e = .ok (b, e')) :
    ∃ found, Discovery.discover e.files scope.paths = .ok found ∧
      b = ((pipeline operator e.files config scope).run found
        (session e.operator config scope)).1 := by
  unfold runBatch at h
  split at h
  · cases h
  · cases h
  · rename_i paths hpaths hfound
    dsimp only at h
    obtain ⟨rfl, -⟩ := Prod.mk.inj (Except.ok.inj h)
    refine ⟨paths, hfound, ?_⟩
    split <;> simp only [Effects.files_note, Effects.operator_note, pipeline, session]

/-- Without configured severities, the report on a batch has errors if and only if some file failed,
and a command that has run its batch and written its results exits with 1 if and only if one of the
files that it found gave no graph. -/
theorem code_eq_one_iff (timestamp : String) :
    (∀ (p : Pipeline σ) (paths : List Path) (s : Session σ),
      p.config.severities.overrides = [] →
      (((p.run paths s).1.toReport timestamp).hasErrors = true ↔
        (p.run paths s).1.failures ≠ [])) ∧
    ∀ (operator : Operator σ) (state : σ) (files : FileSystem) (arguments : List String)
      (options : GlobalOptions) (command : Command) (config : Config) (b : Batch)
      (e e₁ : Effects σ),
      Arguments.parse arguments = .run options command →
      readConfig options ⟨files, "", "", state⟩ = .ok (config, e) →
      config.severities.overrides = [] →
      runBatch operator options.verbose config command.scope e = .ok (b, e₁) →
      Written timestamp options.verbose command b e₁ →
      let p := pipeline operator files config command.scope
      let s := session state config command.scope
      ∃ found, Discovery.discover files command.scope.paths = .ok found ∧ b = (p.run found s).1 ∧
        ((run operator state timestamp files arguments).code = 1 ↔
          ∃ v ∈ p.visits found s, ∀ g, p.verdict v.session v.path ≠ .ok g) := by
  constructor
  · intro p paths s hdefault
    exact (p.accounts_run paths s).hasErrors_iff hdefault timestamp
  · intro operator state files arguments options command config b e e₁ hparse hconfig hdefault hbatch
      hwritten p s
    obtain ⟨hfiles, hstate⟩ := readConfig_eq_ok hconfig
    obtain ⟨found, hfound, hb⟩ := runBatch_eq_ok hbatch
    rw [hfiles] at hfound
    rw [hfiles, hstate] at hb
    have haccounts : p.Accounts (p.visits found s) b := hb ▸ p.accounts_run found s
    have hcode : (run operator state timestamp files arguments).code =
        if (b.toReport timestamp).hasErrors then 1 else 0 := by
      rw [← code_finish hwritten]
      simp only [run, hparse, runCommand, hconfig, hbatch]
    have herrors : (b.toReport timestamp).hasErrors = true ↔
        ∃ v ∈ p.visits found s, ∀ g, p.verdict v.session v.path ≠ .ok g := by
      rw [haccounts.hasErrors_iff hdefault timestamp, haccounts.failures_ne_nil_iff]
      simp only [failure?_ne_none_iff]
    refine ⟨found, hfound, hb, ?_⟩
    rw [hcode, ← herrors]
    cases (b.toReport timestamp).hasErrors <;> decide

/-- A file that is no text. -/
def brokenFiles : FileSystem :=
  (FileSystem.empty []).put ["D.yxmd"] (.file ⟨#[0xff]⟩) trivial

/-- The command for it. -/
def brokenCommand : Command :=
  .macros ⟨[⟨"D.yxmd"⟩], [], true⟩ none

theorem discover_brokenFiles :
    Discovery.discover brokenFiles brokenCommand.scope.paths = .ok [⟨"D.yxmd"⟩] := by
  have hexpand : [(⟨"D.yxmd"⟩ : Path)].mapM (Discovery.expand brokenFiles) =
      .ok [[⟨"D.yxmd"⟩]] := rfl
  rw [Discovery.discover, brokenCommand, Command.scope, hexpand]
  show Except.ok (Discovery.dropRepeats ([⟨"D.yxmd"⟩].mergeSort Path.le)) = _
  simp [Discovery.dropRepeats]

/-- Its pipeline. -/
def brokenPipeline : Pipeline Unit :=
  pipeline .absent brokenFiles (.default ⟨"/"⟩) brokenCommand.scope

/-- The memory that it starts with. -/
def brokenSession : Session Unit :=
  session () (.default ⟨"/"⟩) brokenCommand.scope

theorem exists_load_broken : ∃ e, brokenPipeline.resolver.load ⟨"D.yxmd"⟩ = .error e := by
  have hnone : (brokenPipeline.resolver.load ⟨"D.yxmd"⟩).toOption.isNone = true := by
    decide +kernel
  cases h : brokenPipeline.resolver.load ⟨"D.yxmd"⟩ with
  | error e => exact ⟨e, rfl⟩
  | ok d => rw [h] at hnone; cases hnone

theorem code_eq_one_iff_broken :
    Arguments.parse ["macros", "D.yxmd", "--non-interactive"] =
        .run ⟨none, false⟩ brokenCommand ∧
      readConfig ⟨none, false⟩ ⟨brokenFiles, "", "", ()⟩ =
        .ok (.default ⟨"/"⟩, ⟨brokenFiles, "", "", ()⟩) ∧
      (Config.default ⟨"/"⟩).severities.overrides = [] ∧
      (∃ b e, runBatch .absent false (.default ⟨"/"⟩) brokenCommand.scope
          ⟨brokenFiles, "", "", ()⟩ = .ok (b, e) ∧
        Written "" false brokenCommand b e ∧ b.failures ≠ [] ∧
        (b.toReport "").hasErrors = true) ∧
      (run .absent () "" brokenFiles ["macros", "D.yxmd", "--non-interactive"]).code = 1 := by
  have hparse : Arguments.parse ["macros", "D.yxmd", "--non-interactive"] =
      .run ⟨none, false⟩ brokenCommand := rfl
  have hconfig : readConfig ⟨none, false⟩ (⟨brokenFiles, "", "", ()⟩ : Effects Unit) =
      .ok (.default ⟨"/"⟩, ⟨brokenFiles, "", "", ()⟩) := rfl
  obtain ⟨b, e, hbatch⟩ : ∃ b e, runBatch .absent false (.default ⟨"/"⟩) brokenCommand.scope
      (⟨brokenFiles, "", "", ()⟩ : Effects Unit) = .ok (b, e) := by
    rw [runBatch, discover_brokenFiles]
    exact ⟨_, _, rfl⟩
  have hwritten : Written "" false brokenCommand b e := trivial
  have hdone := (code_eq_one_iff "").2 .absent () brokenFiles
    ["macros", "D.yxmd", "--non-interactive"] ⟨none, false⟩ brokenCommand (.default ⟨"/"⟩) b
    ⟨brokenFiles, "", "", ()⟩ e hparse hconfig rfl hbatch hwritten
  obtain ⟨found, hfound, hb, hcode⟩ := hdone
  obtain rfl : [⟨"D.yxmd"⟩] = found := Except.ok.inj (discover_brokenFiles.symm.trans hfound)
  obtain ⟨_, hload⟩ := exists_load_broken
  have hgraph := Pipeline.exists_visit_of_load_eq_error hload (List.mem_singleton_self _)
    brokenSession
  have hfailures : b.failures ≠ [] := by
    rw [hb]
    refine (brokenPipeline.accounts_run _ brokenSession).failures_ne_nil_iff.2 ?_
    simpa only [failure?_ne_none_iff] using hgraph
  have herrors : (b.toReport "").hasErrors = true := by
    rw [hb] at hfailures ⊢
    exact ((code_eq_one_iff "").1 brokenPipeline _ brokenSession rfl).2 hfailures
  exact ⟨hparse, hconfig, rfl, ⟨b, e, hbatch, hwritten, hfailures, herrors⟩, hcode.2 hgraph⟩

end CommandLine

end Provenance
