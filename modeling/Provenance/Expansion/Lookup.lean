import Provenance.Document.Source
import Provenance.Expansion.Context
import Provenance.Expansion.Operator
import Provenance.Expansion.Search

/-!
# Looking up the file of a macro

The file of a macro is searched for from the folder of the document that calls it. If it is not
there, an earlier decision of the operator counts, and if there is none the operator is asked.

A look-up keeps all that is remembered about files (`lookup_expansions`, `lookup_opened`), and what
it locates is one of finitely many paths, the `targets` of the memory (`lookup_target`).
-/

namespace Provenance

/-- A run's memory and the state of its operator. -/
structure Session (σ : Type) where
  context : Context
  operator : σ

/-- How macros are searched for and how often an operator is asked for one. -/
structure ResolverOptions where
  search : SearchOptions
  maxAttempts : Nat
  deriving DecidableEq, Repr

/-- Where macros come from. -/
structure Resolver (σ : Type) where
  files : FileSystem
  load : Path → Except LoadError Document
  options : ResolverOptions
  operator : Operator σ

namespace Resolver

variable {σ : Type} (r : Resolver σ)

/-- The file of a macro that a document calls, if the search finds it. -/
def search? (reference : Reference) (document : Path) (folders : List Path) : Option Path :=
  Search.find? r.files r.options.search reference document.directory folders

/-- Asks the operator once. -/
def question (reference : Reference) (document : Path) (attempt : Nat) (s : Session σ) :
    Answer × Session σ :=
  let request : Request := ⟨reference, document, s.context.searchFolders, attempt⟩
  let (answer, operator) := r.operator.answer request s.operator
  (answer, ⟨{ s.context with prompts := s.context.prompts + 1 }, operator⟩)

/-- Asks the operator until there is a file or a refusal. A folder stays a search folder even if the
file is not in it. The first argument counts the questions that are left. -/
def ask (reference : Reference) (document : Path) : Nat → Nat → Session σ → Decision × Session σ
  | 0, _, s => (.unresolved .skipped, s)
  | left + 1, attempt, s =>
    match r.question reference document attempt s with
    | (.file path, s) =>
      if r.files.isFile path then (.located (r.files.canonical path), s)
      else ask reference document left (attempt + 1) s
    | (.folder path, s) =>
      if r.files.isFolder path then
        let s := { s with context := s.context.addFolder path }
        match r.search? reference document s.context.searchFolders with
        | some found => (.located (r.files.canonical found), s)
        | none => ask reference document left (attempt + 1) s
      else ask reference document left (attempt + 1) s
    | (.skip, s) => (.unresolved .skipped, s)
    | (.skipAll, s) => (.unresolved .skipped, { s with context.skipsAll := true })
    | (.decline, s) => (.unresolved .missing, s)

/-- The file of a macro: found by searching, or by an earlier decision, or by asking. -/
def lookup (reference : Reference) (document : Path) (s : Session σ) : Decision × Session σ :=
  match r.search? reference document s.context.searchFolders with
  | some found => (.located (r.files.canonical found), s)
  | none =>
    match s.context.decision? reference with
    | some decision => (decision, s)
    | none =>
      if s.context.skipsAll || !r.operator.isInteractive then (.unresolved .missing, s)
      else
        let (decision, s) := r.ask reference document r.options.maxAttempts 1 s
        (decision, { s with context := s.context.decide reference decision })

theorem search?_isFile {reference : Reference} {document : Path} {folders : List Path}
    {found : Path} (h : r.search? reference document folders = some found) : r.files.isFile found :=
  Search.isFile_of_find? h

theorem question_sameRecords (reference : Reference) (document : Path) (attempt : Nat)
    (s : Session σ) :
    s.context.SameRecords (r.question reference document attempt s).2.context := ⟨rfl, rfl, rfl⟩

/-- Asking changes nothing but the search folders, the number of questions and whether to go on. -/
theorem ask_sameRecords (reference : Reference) (document : Path) (left attempt : Nat)
    (s : Session σ) :
    s.context.SameRecords (r.ask reference document left attempt s).2.context := by
  induction left generalizing attempt s with
  | zero => exact .refl _
  | succ left ih =>
    unfold ask
    have hasked := r.question_sameRecords reference document attempt s
    cases hq : r.question reference document attempt s with
    | mk answer s' =>
      rw [hq] at hasked
      cases answer with
      | file path =>
        dsimp only
        split
        · exact hasked
        · exact hasked.trans (ih _ _)
      | folder path =>
        have hadded := hasked.trans (Context.sameRecords_addFolder s'.context path)
        dsimp only
        split
        · split
          · exact hadded
          · exact hadded.trans (ih (attempt + 1) ⟨s'.context.addFolder path, s'.operator⟩)
        · exact hasked.trans (ih _ _)
      | skip => exact hasked
      | skipAll => exact ⟨hasked.expansions, hasked.decisions, hasked.opened⟩
      | decline => exact hasked

/-- An operator's file is a canonical path of the file system. -/
theorem ask_located {reference : Reference} {document : Path} {left attempt : Nat} {s : Session σ}
    {path : Path} (h : (r.ask reference document left attempt s).1 = .located path) :
    path ∈ r.files.filePaths := by
  induction left generalizing attempt s with
  | zero => cases h
  | succ left ih =>
    unfold ask at h
    cases hq : r.question reference document attempt s with
    | mk answer s' =>
      rw [hq] at h
      cases answer with
      | file given =>
        dsimp only at h
        split at h
        · rename_i hfile
          cases h
          exact FileSystem.canonical_mem_filePaths hfile
        · exact ih h
      | folder given =>
        dsimp only at h
        split at h
        · split at h
          · rename_i hfound
            cases h
            exact FileSystem.canonical_mem_filePaths (r.search?_isFile hfound)
          · exact ih h
        · exact ih h
      | skip => cases h
      | skipAll => cases h
      | decline => cases h

/-- The paths that a look-up can give: the files of the file system, and the files that were decided
on before and are spelled in another way. -/
def targets (c : Context) : List Path :=
  r.files.filePaths ++ c.decidedFiles.filter (fun path ↦ !r.files.filePaths.any (· == path))

theorem mem_targets_of_mem_filePaths {c : Context} {path : Path} (h : path ∈ r.files.filePaths) :
    path ∈ r.targets c :=
  List.mem_append_left _ h

theorem exists_mem_targets_of_decided {c : Context} {path : Path} (h : path ∈ c.decidedFiles) :
    ∃ target ∈ r.targets c, target == path := by
  by_cases hfile : r.files.filePaths.any (· == path)
  · obtain ⟨target, hmem, heq⟩ := List.any_eq_true.1 hfile
    exact ⟨target, r.mem_targets_of_mem_filePaths hmem, heq⟩
  · exact ⟨path, List.mem_append_right _ (List.mem_filter.2 ⟨h, by simpa using hfile⟩), BEq.rfl⟩

/-- A look-up changes nothing that is known about files. -/
theorem lookup_expansions (reference : Reference) (document : Path) (s : Session σ) :
    (r.lookup reference document s).2.context.expansions = s.context.expansions := by
  unfold lookup
  split
  · rfl
  · split
    · rfl
    · split
      · rfl
      · exact (r.ask_sameRecords reference document _ _ s).expansions

theorem lookup_opened (reference : Reference) (document : Path) (s : Session σ) :
    (r.lookup reference document s).2.context.opened = s.context.opened := by
  unfold lookup
  split
  · rfl
  · split
    · rfl
    · split
      · rfl
      · exact (r.ask_sameRecords reference document _ _ s).opened

/-- No look-up adds to what look-ups can give. -/
theorem lookup_targets (reference : Reference) (document : Path) (s : Session σ) :
    (r.targets (r.lookup reference document s).2.context).Sublist (r.targets s.context) := by
  unfold lookup
  split
  · exact List.Sublist.refl _
  · split
    · exact List.Sublist.refl _
    · split
      · exact List.Sublist.refl _
      · have hsame := r.ask_sameRecords reference document r.options.maxAttempts 1 s
        have hlocated := @ask_located σ r reference document r.options.maxAttempts 1 s
        cases hask : r.ask reference document r.options.maxAttempts 1 s with
        | mk decision s' =>
          rw [hask] at hsame hlocated
          dsimp only at hsame hlocated
          obtain ⟨kept, hkept, hfiles⟩ := s'.context.decidedFiles_decide reference decision
          have hnone : decision.file?.toList.filter
              (fun path ↦ !r.files.filePaths.any (· == path)) = [] := by
            cases decision with
            | unresolved gap => rfl
            | located path =>
              have hmem := hlocated rfl
              simpa [Decision.file?] using ⟨path, hmem, BEq.rfl⟩
          have hdecided : s'.context.decidedFiles = s.context.decidedFiles := by
            simp only [Context.decidedFiles, hsame.decisions]
          dsimp only [targets]
          rw [hfiles, List.filter_append, hnone, List.nil_append, ← hdecided]
          exact (hkept.filter _).append_left _

/-- What a look-up gives is one of the targets. -/
theorem lookup_target {reference : Reference} {document : Path} {s : Session σ} {path : Path}
    (h : (r.lookup reference document s).1 = .located path) :
    ∃ target ∈ r.targets s.context, target == path := by
  unfold lookup at h
  split at h
  · rename_i found hfound
    cases h
    have hmem := FileSystem.canonical_mem_filePaths (r.search?_isFile hfound)
    exact ⟨_, r.mem_targets_of_mem_filePaths hmem, BEq.rfl⟩
  · split at h
    · rename_i decision hdecision
      dsimp only at h
      subst h
      exact r.exists_mem_targets_of_decided (Context.mem_decidedFiles hdecision)
    · split at h
      · cases h
      · exact ⟨path, r.mem_targets_of_mem_filePaths (r.ask_located h), BEq.rfl⟩

end Resolver

end Provenance
