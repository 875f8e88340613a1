import Provenance.Proofs.Json.Fields
import Provenance.Proofs.Json.Nesting
import Provenance.Proofs.Report.Counters
import Provenance.Report.Json

/-!
# Reading reports

Every report that the operations on reports make (`Report.Made`) is regular: its numbers fit 64
bits, and in its metadata there are no doubles and the fields are in order (`Report.Made.regular`).
A regular report is read from its text as it was, save that metadata that are `null` are as good as
none (`Report.Regular.ofText?_text`). Only metadata can nest so deep that a report is not read back
(`Report.Made.ofText?_text_eq_iff`).
-/

namespace Provenance

open Json

theorem Severity.ofJson?_toJson (severity : Severity) : ofJson? severity.toJson = some severity :=
  ofName?_name severity

theorem Code.ofJson?_toJson (code : Code) : ofJson? code.toJson = some code :=
  ofName?_name code

namespace Location

theorem ofJson?_toJson (l : Location) : ofJson? l.toJson = some l := by
  obtain ⟨file, node⟩ := l
  cases node <;>
    simp [ofJson?, toJson, record?, repeats, required?, optional?, orNull?, field?, text?, present]

theorem readable_toJson (l : Location) {depth : Nat} (hdepth : depth < maxDepth) :
    l.toJson.Readable depth := by
  refine ⟨hdepth, trivial, ?_⟩
  cases l.node with
  | none => trivial
  | some node => exact ⟨trivial, trivial⟩

end Location

namespace Diagnostic

theorem ofJson?_toJson (d : Diagnostic) : ofJson? d.toJson = some d := by
  have hlocation : orNull? Location.ofJson? (nullable Location.toJson d.location) =
      some d.location := orNull?_nullable Location.ofJson?_toJson (fun l h ↦ nomatch h) _
  have htext (x : Option String) : orNull? text? (nullable string x) = some x :=
    @orNull?_nullable _ string text? (fun _ ↦ rfl) nofun x
  simp [ofJson?, toJson, record?, repeats, required?, optional?, field?, text?, Code.ofJson?_toJson,
    Severity.ofJson?_toJson, hlocation, htext, texts?_strings]

theorem readable_toJson (d : Diagnostic) {depth : Nat} (hdepth : depth + 1 < maxDepth) :
    d.toJson.Readable depth := by
  have hlocation : (nullable Location.toJson d.location).Readable (depth + 1) := by
    cases d.location with
    | none => trivial
    | some l => exact l.readable_toJson hdepth
  have htext (x : Option String) : (nullable string x).Readable (depth + 1) := by
    cases x <;> trivial
  exact ⟨by omega, trivial, trivial, trivial, hlocation, htext _, htext _,
    readable_strings _ hdepth, trivial⟩

end Diagnostic

namespace Report

namespace Summary

/-- The numbers fit 64 bits. -/
structure Fits (s : Summary) : Prop where
  total : s.total ≤ maxWord
  errors : s.errors ≤ maxWord
  warnings : s.warnings ≤ maxWord
  info : s.info ≤ maxWord
  processed : s.processed ≤ maxWord
  built : s.built ≤ maxWord
  failed : s.failed ≤ maxWord

variable {s : Summary} (h : s.Fits)

include h

theorem ofJson?_toJson : ofJson? s.toJson = some s := by
  simp [ofJson?, toJson, record?, repeats, required?, field?, word?_nat, h.total, h.errors,
    h.warnings, h.info, h.processed, h.built, h.failed]

theorem readable_toJson {depth : Nat} (hdepth : depth < maxDepth) : s.toJson.Readable depth :=
  ⟨hdepth, readable_nat h.total, readable_nat h.errors, readable_nat h.warnings,
    readable_nat h.info, readable_nat h.processed, readable_nat h.built, readable_nat h.failed,
    trivial⟩

end Summary

/-! ## What the operations make -/

/-- The reports that the operations on reports make. There are at most `maxWord` diagnostics and
workflows, and no doubles in metadata. -/
inductive Made : Report → Prop
  | empty (timestamp : String) : Made (empty timestamp)
  | ofDiagnostics (timestamp : String) {diagnostics : List Diagnostic}
    (hlength : diagnostics.length ≤ maxWord) : Made (ofDiagnostics timestamp diagnostics)
  | add {r : Report} (hr : Made r) (hlength : r.diagnostics.length < maxWord) (d : Diagnostic) :
    Made (r.add d)
  | withCounts {r : Report} (hr : Made r) {processed built failed : Nat}
    (hprocessed : processed ≤ maxWord) (hbuilt : built ≤ maxWord) (hfailed : failed ≤ maxWord) :
    Made (r.withCounts processed built failed)
  | withMetadata {r : Report} (hr : Made r) {value : Json} (hvalue : value.Whole) :
    Made (r.withMetadata value)

/-- A report of the current version whose numbers fit 64 bits and are those of its diagnostics, and
in whose metadata there are no doubles and the fields are in order. -/
structure Regular (r : Report) : Prop where
  version : r.version = currentVersion
  counted : r.Counted
  length_le : r.diagnostics.length ≤ maxWord
  processed_le : r.summary.processed ≤ maxWord
  built_le : r.summary.built ≤ maxWord
  failed_le : r.summary.failed ≤ maxWord
  whole : ∀ value ∈ r.metadata, value.Whole
  sorted : ∀ value ∈ r.metadata, value.sortKeys = value

theorem regular_ofDiagnostics (timestamp : String) {diagnostics : List Diagnostic}
    (h : diagnostics.length ≤ maxWord) : (ofDiagnostics timestamp diagnostics).Regular where
  version := rfl
  counted := counted_ofDiagnostics timestamp diagnostics
  length_le := h
  processed_le := Nat.zero_le _
  built_le := Nat.zero_le _
  failed_le := Nat.zero_le _
  whole := nofun
  sorted := nofun

namespace Regular

variable {r : Report} (h : r.Regular)

include h

theorem add (hlength : r.diagnostics.length < maxWord) (d : Diagnostic) : (r.add d).Regular where
  version := h.version
  counted := h.counted.add d
  length_le := by
    rw [Report.add, List.length_append]
    exact hlength
  processed_le := by cases hd : d.severity <;> simp [Report.add, Summary.add, hd, h.processed_le]
  built_le := by cases hd : d.severity <;> simp [Report.add, Summary.add, hd, h.built_le]
  failed_le := by cases hd : d.severity <;> simp [Report.add, Summary.add, hd, h.failed_le]
  whole := h.whole
  sorted := h.sorted

theorem withCounts {processed built failed : Nat} (hprocessed : processed ≤ maxWord)
    (hbuilt : built ≤ maxWord) (hfailed : failed ≤ maxWord) :
    (r.withCounts processed built failed).Regular :=
  { h with
    counted := ⟨h.counted.total, h.counted.errors, h.counted.warnings, h.counted.info⟩
    processed_le := hprocessed
    built_le := hbuilt
    failed_le := hfailed }

theorem withMetadata {value : Json} (hvalue : value.Whole) : (r.withMetadata value).Regular :=
  { h with
    counted := ⟨h.counted.total, h.counted.errors, h.counted.warnings, h.counted.info⟩
    whole := by
      rintro _ ⟨⟩
      exact hvalue.sortKeys
    sorted := by
      rintro _ ⟨⟩
      exact sortKeys_sortKeys value }

theorem fits_summary : r.summary.Fits := by
  have htotal := h.counted.total_eq
  have hlength := h.length_le
  rw [← h.counted.total] at hlength
  exact ⟨hlength, by omega, by omega, by omega, h.processed_le, h.built_le, h.failed_le⟩

end Regular

theorem Made.regular {r : Report} (h : r.Made) : r.Regular := by
  induction h with
  | empty timestamp =>
    have hlength : ([] : List Diagnostic).length ≤ maxWord := Nat.zero_le _
    exact regular_ofDiagnostics timestamp hlength
  | ofDiagnostics timestamp hlength => exact regular_ofDiagnostics timestamp hlength
  | add _ hlength d ih => exact ih.add hlength d
  | withCounts _ hprocessed hbuilt hfailed ih => exact ih.withCounts hprocessed hbuilt hfailed
  | withMetadata _ hvalue ih => exact ih.withMetadata hvalue

/-! ## Texts -/

/-- Metadata as they are read, in which `null` is as good as nothing. -/
def known : Option Json → Option Json
  | some null => none
  | metadata => metadata

theorem orNull?_some (value : Json) : orNull? some value = some (known (some value)) := by
  cases value <;> rfl

theorem known_eq_self {metadata : Option Json} (h : metadata ≠ some null) :
    known metadata = metadata := by
  unfold known
  split
  · contradiction
  · rfl

namespace Regular

variable {r : Report} (h : r.Regular)

include h

theorem map_sortKeys_known : (known r.metadata).map sortKeys = known r.metadata := by
  unfold known
  split
  · rfl
  · cases hvalue : r.metadata with
    | none => rfl
    | some value => exact congrArg some (h.sorted value hvalue)

theorem ofJson?_toJson : ofJson? r.toJson = some { r with metadata := known r.metadata } := by
  have hversion : Version.ofJson? r.version.toJson = some r.version := by
    rw [h.version]
    rfl
  have hdiagnostics : list? Diagnostic.ofJson? (array (r.diagnostics.map Diagnostic.toJson)) =
      some r.diagnostics := list?_map fun d _ ↦ d.ofJson?_toJson
  have hsorted := h.map_sortKeys_known
  cases hmetadata : r.metadata with
  | none =>
    simp [Report.ofJson?, toJson, record?, repeats, required?, optional?, field?, text?, present,
      known, hversion, Summary.ofJson?_toJson h.fits_summary, hdiagnostics, hmetadata]
  | some value =>
    rw [hmetadata] at hsorted
    simp [Report.ofJson?, toJson, record?, repeats, required?, optional?, field?, text?, present,
      hversion, Summary.ofJson?_toJson h.fits_summary, hdiagnostics, hmetadata, orNull?_some,
      hsorted]

theorem readable_toJson (hnesting : ∀ value ∈ r.metadata, value.nesting < maxDepth) :
    r.toJson.Readable 0 := by
  have hversion : r.version.toJson.Readable 1 := by
    rw [h.version]
    exact ⟨by decide, readable_nat (by decide), readable_nat (by decide), trivial⟩
  have hdiagnostics : ReadableItems 2 (r.diagnostics.map Diagnostic.toJson) :=
    readableItems_map fun d _ ↦ d.readable_toJson (by decide)
  have hmetadata : ReadableFields 1 (present "metadata" r.metadata) := by
    cases hvalue : r.metadata with
    | none => trivial
    | some value =>
      have hlt := hnesting value hvalue
      exact ⟨(readable_iff (by decide)).2 ⟨h.whole value hvalue, by omega⟩, trivial⟩
  exact ⟨by decide, hversion, trivial, Summary.readable_toJson h.fits_summary (by decide),
    ⟨by decide, hdiagnostics⟩, hmetadata⟩

/-- A report whose metadata do not nest too deep is read from its text. -/
theorem ofText?_text (hnesting : ∀ value ∈ r.metadata, value.nesting < maxDepth) :
    ofText? r.text = some { r with metadata := known r.metadata } :=
  calc
    ofText? r.text = (read? r.toJson.indented).bind ofJson? := rfl
    _ = ofJson? r.toJson := by rw [read?_indented (h.readable_toJson hnesting), Option.bind_some]
    _ = some { r with metadata := known r.metadata } := h.ofJson?_toJson

end Regular

/-- Metadata nest less deep than the report that they are read from. -/
theorem nesting_of_ofJson? {value : Json} {r : Report} (h : ofJson? value = some r) :
    ∀ metadata ∈ r.metadata, metadata.nesting < value.nesting := by
  intro metadata hmetadata
  simp only [ofJson?, Option.bind_eq_bind, Option.bind_eq_some_iff] at h
  obtain ⟨record, hrecord, version, -, timestamp, -, summary, -, diagnostics, -, read, hread, hr⟩ :=
    h
  cases hr
  obtain ⟨field, rfl, rfl⟩ := Option.map_eq_some_iff.1 hmetadata
  calc
    field.sortKeys.nesting ≤ field.nesting := nesting_sortKeys_le field
    _ < record.nesting := nesting_of_field? (field?_of_optional? hread)
    _ ≤ value.nesting := nesting_of_record? hrecord

theorem nesting_of_ofText? {text : String} {r : Report} (h : ofText? text = some r) :
    ∀ value ∈ r.metadata, value.nesting < maxDepth := by
  intro value hvalue
  obtain ⟨written, hwritten, hr⟩ := Option.bind_eq_some_iff.1 h
  calc
    value.nesting < written.nesting := nesting_of_ofJson? hr value hvalue
    _ ≤ maxDepth := nesting_of_read? hwritten

/-- A report that was made is read back as it was unless arrays and objects nest too deep in its
metadata. -/
theorem Made.ofText?_text_eq_iff {r : Report} (h : r.Made) (hnull : r.metadata ≠ some null) :
    ofText? r.text = some r ↔ ∀ value ∈ r.metadata, value.nesting < maxDepth := by
  constructor
  · exact nesting_of_ofText?
  · intro hnesting
    rw [h.regular.ofText?_text hnesting, known_eq_self hnull]

/-- A missing macro with all that is known of it, and a note on a file. -/
def missingMacro : Report :=
  let missing := { Diagnostic.ofCode .macroMissing "\"Clean\" is not there" with
    location := some ⟨"flows/mail.yxmd", some "4"⟩
    expected := some "macros\\Clean.yxmc"
    impact := ["mail#4", "mail#5"] }
  let note := (Diagnostic.ofCode .info "1 of 2\nbuilt").atPlace "flows/mail.yxmd" none
  let inventory := object [("status", .string "missing"),
    ("macro", object [("users", array [nat 4, null]), ("name", .string "Clean")])]
  (((ofDiagnostics "T" [missing]).add note).withCounts 2 1 1).withMetadata inventory

theorem ofText?_text_missingMacro :
    missingMacro.Made ∧ missingMacro.metadata ≠ some null ∧
      ofText? missingMacro.text = some missingMacro := by
  have hmade : missingMacro.Made := by
    refine .withMetadata (.withCounts (.add (.ofDiagnostics _ ?_) ?_ _) ?_ ?_ ?_) ?_
    case refine_6 => exact ⟨trivial, ⟨⟨rfl, trivial, trivial⟩, trivial, trivial⟩, trivial⟩
    all_goals decide
  have hnull : missingMacro.metadata ≠ some null := nofun
  refine ⟨hmade, hnull, (hmade.ofText?_text_eq_iff hnull).2 ?_⟩
  rintro _ ⟨⟩
  exact lt_of_le_of_lt (nesting_sortKeys_le _) (by decide)

/-- `null` in a number of arrays. -/
def boxed : Nat → Json
  | 0 => null
  | n + 1 => array [boxed n]

theorem nesting_boxed (n : Nat) : (boxed n).nesting = n := by
  induction n with
  | zero => rfl
  | succ n ih => simp [boxed, nesting, nestingItems, ih]

theorem whole_boxed (n : Nat) : (boxed n).Whole := by
  induction n with
  | zero => trivial
  | succ n ih => exact ⟨ih, trivial⟩

theorem sortKeys_boxed (n : Nat) : (boxed n).sortKeys = boxed n := by
  induction n with
  | zero => rfl
  | succ n ih => simp [boxed, sortKeys, sortItems, ih]

/-- A report whose metadata are `null` in a number of arrays. -/
def boxes (n : Nat) : Report :=
  (empty "T").withMetadata (boxed n)

theorem made_boxes (n : Nat) : (boxes n).Made :=
  .withMetadata (.empty "T") (whole_boxed n)

/-- Metadata that are `null` get lost, and with metadata that nest as deep as containers may there
is one container too many, the report itself. -/
theorem ofText?_text_ne :
    ((boxes 0).Made ∧ ofText? (boxes 0).text = some (empty "T") ∧
        ofText? (boxes 0).text ≠ some (boxes 0)) ∧
      (boxes maxDepth).Made ∧ ofText? (boxes maxDepth).text ≠ some (boxes maxDepth) := by
  have hlost : ofText? (boxes 0).text = some (empty "T") := by
    refine (made_boxes 0).regular.ofText?_text ?_
    rintro _ ⟨⟩
    decide
  have hne : empty "T" ≠ boxes 0 := fun heq ↦ nomatch congrArg metadata heq
  have hnull : ofText? (boxes 0).text ≠ some (boxes 0) := by
    rw [hlost]
    exact fun heq ↦ hne (Option.some.inj heq)
  have hdeep : ofText? (boxes maxDepth).text ≠ some (boxes maxDepth) := by
    intro hread
    have hlt : (boxed maxDepth).sortKeys.nesting < maxDepth := nesting_of_ofText? hread _ rfl
    rw [sortKeys_boxed, nesting_boxed] at hlt
    exact Nat.lt_irrefl _ hlt
  exact ⟨⟨made_boxes 0, hlost, hnull⟩, made_boxes maxDepth, hdeep⟩

end Report

end Provenance
