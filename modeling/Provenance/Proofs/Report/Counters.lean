import Provenance.Report

/-!
# The counters of a report

The counters of a report are the numbers of its diagnostics of each severity (`Counted`), and stay
so when diagnostics are added one after the other. As there are three severities, they add up to the
total.

A report on a list of diagnostics counts them all at once, and one that grows counts each as it
comes. The two lead to the same report (`Report.foldl_add_empty`), whose counters stay right as it
grows further (`Report.ofDiagnostics_eq_foldl_add`).
-/

namespace Provenance

namespace Report

/-- Each counter is the number of diagnostics of its severity, and the total that of all. -/
structure Counted (r : Report) : Prop where
  total : r.summary.total = r.diagnostics.length
  errors : r.summary.errors = count .error r.diagnostics
  warnings : r.summary.warnings = count .warn r.diagnostics
  info : r.summary.info = count .info r.diagnostics

theorem count_concat (severity : Severity) (diagnostics : List Diagnostic) (d : Diagnostic) :
    count severity (diagnostics ++ [d]) =
      count severity diagnostics + if d.severity = severity then 1 else 0 := by
  by_cases h : d.severity = severity <;> simp [count, h]

theorem count_pos_iff {severity : Severity} {diagnostics : List Diagnostic} :
    0 < count severity diagnostics ↔ ∃ d ∈ diagnostics, d.severity = severity := by
  simp [count, List.length_pos_iff_exists_mem]

/-- Every diagnostic has one of the three severities. -/
theorem count_add_count (diagnostics : List Diagnostic) :
    count .error diagnostics + count .warn diagnostics + count .info diagnostics =
      diagnostics.length := by
  induction diagnostics with
  | nil => rfl
  | cons d rest ih =>
    cases h : d.severity <;> simp [count, h] at ih ⊢ <;> omega

theorem counted_ofDiagnostics (timestamp : String) (diagnostics : List Diagnostic) :
    (ofDiagnostics timestamp diagnostics).Counted :=
  ⟨rfl, rfl, rfl, rfl⟩

theorem counted_empty (timestamp : String) : (empty timestamp).Counted :=
  counted_ofDiagnostics timestamp []

namespace Counted

variable {r : Report}

theorem add (h : r.Counted) (d : Diagnostic) : (r.add d).Counted := by
  obtain ⟨htotal, herrors, hwarnings, hinfo⟩ := h
  cases hseverity : d.severity <;>
    constructor <;>
    simp [Report.add, Summary.add, count_concat, hseverity, htotal, herrors, hwarnings, hinfo]

theorem foldl_add (h : r.Counted) (diagnostics : List Diagnostic) :
    (diagnostics.foldl Report.add r).Counted := by
  induction diagnostics generalizing r with
  | nil => exact h
  | cons d rest ih => exact ih (h.add d)

theorem total_eq (h : r.Counted) :
    r.summary.total = r.summary.errors + r.summary.warnings + r.summary.info := by
  rw [h.total, h.errors, h.warnings, h.info, count_add_count]

theorem hasErrors_iff (h : r.Counted) :
    r.hasErrors = true ↔ ∃ d ∈ r.diagnostics, d.severity = .error := by
  rw [hasErrors, decide_eq_true_iff, h.errors, count_pos_iff]

end Counted

theorem diagnostics_foldl_add (r : Report) (diagnostics : List Diagnostic) :
    (diagnostics.foldl add r).diagnostics = r.diagnostics ++ diagnostics := by
  induction diagnostics generalizing r with
  | nil => exact (List.append_nil _).symm
  | cons d rest ih => rw [List.foldl_cons, ih, add, List.append_assoc, List.singleton_append]

/-! ## Counting at once and one by one -/

/-- Counting one diagnostic more gives the numbers that counting all at once gives. -/
theorem add_ofDiagnostics (timestamp : String) (diagnostics : List Diagnostic) (d : Diagnostic) :
    (ofDiagnostics timestamp diagnostics).add d = ofDiagnostics timestamp (diagnostics ++ [d]) := by
  have hsummary : (ofDiagnostics timestamp diagnostics).summary.add d.severity =
      (ofDiagnostics timestamp (diagnostics ++ [d])).summary := by
    cases hseverity : d.severity <;>
      simp [ofDiagnostics, Summary.add, count_concat, hseverity]
  rw [Report.add, hsummary]
  rfl

theorem foldl_add_ofDiagnostics (timestamp : String) (diagnostics more : List Diagnostic) :
    more.foldl add (ofDiagnostics timestamp diagnostics) =
      ofDiagnostics timestamp (diagnostics ++ more) := by
  induction more generalizing diagnostics with
  | nil => rw [List.foldl_nil, List.append_nil]
  | cons d rest ih => rw [List.foldl_cons, add_ofDiagnostics, ih, ← List.append_cons]

/-- A report on some diagnostics is the empty report with these diagnostics added. -/
theorem foldl_add_empty (timestamp : String) (diagnostics : List Diagnostic) :
    diagnostics.foldl add (empty timestamp) = ofDiagnostics timestamp diagnostics :=
  foldl_add_ofDiagnostics timestamp [] diagnostics

/-- A report on a list of diagnostics and one to which they are added one after the other differ in
nothing but their timestamps. Whatever is added to either of them later, it lists all diagnostics in
order, its counters are the numbers of diagnostics of each severity and add up to the total, and it
has errors if and only if a diagnostic is an error. -/
theorem ofDiagnostics_eq_foldl_add (written begun : String) (diagnostics : List Diagnostic) :
    let listed := ofDiagnostics written diagnostics
    let grown := diagnostics.foldl add (empty begun)
    { listed with timestamp := begun } = grown ∧
      ∀ more : List Diagnostic, ∀ r ∈ [more.foldl add listed, more.foldl add grown],
        r.diagnostics = diagnostics ++ more ∧ r.Counted ∧
          r.summary.total = r.summary.errors + r.summary.warnings + r.summary.info ∧
          (r.hasErrors = true ↔ ∃ d ∈ r.diagnostics, d.severity = .error) := by
  intro listed grown
  have hgrown : grown = ofDiagnostics begun diagnostics := foldl_add_empty begun diagnostics
  refine ⟨hgrown.symm, ?_⟩
  intro more r hr
  -- Either way the report is one on all of the diagnostics, and only its timestamp is left open.
  obtain ⟨timestamp, rfl⟩ : ∃ timestamp, r = ofDiagnostics timestamp (diagnostics ++ more) := by
    rw [hgrown, foldl_add_ofDiagnostics, foldl_add_ofDiagnostics, List.mem_cons,
      List.mem_singleton] at hr
    cases hr with
    | inl hr => exact ⟨written, hr⟩
    | inr hr => exact ⟨begun, hr⟩
  have hcounted := counted_ofDiagnostics timestamp (diagnostics ++ more)
  exact ⟨rfl, hcounted, hcounted.total_eq, hcounted.hasErrors_iff⟩

/-- A cycle, a missing macro that counts as an error, and a note. -/
def findings : List Diagnostic :=
  [.ofCode .macroCyclic "A -> B -> A",
   { Diagnostic.ofCode .macroMissing "Clean" with severity := .error },
   .ofCode .info "built"]

theorem ofDiagnostics_eq_foldl_add_findings :
    let later := [Diagnostic.ofCode .macroSkipped "Join", .ofCode .info "done"]
    let listed := ofDiagnostics "12:00" findings
    let grown := findings.foldl add (empty "11:59")
    let r := later.foldl add grown
    { listed with timestamp := "11:59" } = grown ∧ r ∈ [later.foldl add listed, r] ∧
      r.diagnostics = findings ++ later ∧ r.summary = ⟨5, 2, 1, 2, 0, 0, 0⟩ ∧ r.Counted ∧
      r.summary.total = r.summary.errors + r.summary.warnings + r.summary.info ∧
      (r.hasErrors = true ↔ ∃ d ∈ r.diagnostics, d.severity = .error) := by
  intro later listed grown r
  obtain ⟨hagree, hlater⟩ := ofDiagnostics_eq_foldl_add "12:00" "11:59" findings
  have hr : r ∈ [later.foldl add listed, r] := .tail _ (.head _)
  obtain ⟨hdiagnostics, hcounted, htotal, herrors⟩ := hlater later r hr
  exact ⟨hagree, hr, hdiagnostics, rfl, hcounted, htotal, herrors⟩

end Report

end Provenance
