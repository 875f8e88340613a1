import Provenance.Document
import Provenance.Expansion.Issue

/-!
# Contexts

What one run remembers from document to document: the expanded macros by file, the operator's
decisions by reference, the search folders, how often the operator was asked, and which macro files
were opened. A search that found nothing is not remembered, since the next document may have the
file in its own folder.
-/

namespace Provenance

/-- A macro that was spliced in somewhere. -/
structure Use where
  reference : Reference
  path : Path
  inputs : Nat
  outputs : Nat
  deriving Repr

/-- A macro in which every call has been replaced or marked. -/
structure Definition where
  path : Path
  document : Document
  issues : List Issue
  uses : List Use
  deriving Inhabited

/-- What came of a macro's file. -/
inductive Expansion where
  | expanded (definition : Definition)
  | failed (gap : Gap)

/-- What an operator decided about a reference. -/
inductive Decision where
  | located (path : Path)
  | unresolved (gap : Gap)
  deriving Repr

/-- The file that was decided on. -/
def Decision.file? : Decision → Option Path
  | .located path => some path
  | .unresolved _ => none

/-- The memory of a run. -/
structure Context where
  expansions : List (Path × Expansion)
  decisions : List (Reference × Decision)
  searchFolders : List Path
  skipsAll : Bool
  /-- The number of questions asked. -/
  prompts : Nat
  /-- The macro files that were opened, latest first. -/
  opened : List Path

namespace Context

/-- Adds a search folder at the end unless it is there already. -/
def addFolder (c : Context) (folder : Path) : Context :=
  if c.searchFolders.any (· == folder) then c
  else { c with searchFolders := c.searchFolders ++ [folder] }

/-- A run that is about to start with some search folders. -/
def start (folders : List Path) : Context :=
  folders.foldl addFolder ⟨[], [], [], false, 0, []⟩

/-- What came of a file. -/
def expansion? (c : Context) (path : Path) : Option Expansion :=
  (c.expansions.find? (fun entry ↦ entry.1 == path)).map Prod.snd

/-- Remembers what came of a file, in place of what was known before. -/
def remember (c : Context) (path : Path) (e : Expansion) : Context :=
  { c with expansions := (path, e) :: c.expansions.filter (fun entry ↦ !(entry.1 == path)) }

/-- What an operator decided about a reference. -/
def decision? (c : Context) (reference : Reference) : Option Decision :=
  (c.decisions.find? (fun entry ↦ entry.1 = reference)).map Prod.snd

/-- Records a decision, in place of an earlier one. -/
def decide (c : Context) (reference : Reference) (decision : Decision) : Context :=
  { c with
    decisions := (reference, decision) :: c.decisions.filter (fun entry ↦ entry.1 ≠ reference) }

theorem expansion?_remember (c : Context) (path path' : Path) (e : Expansion) :
    (c.remember path e).expansion? path' =
      if path == path' then some e else c.expansion? path' := by
  unfold expansion? remember
  by_cases h : path == path'
  · simp [h]
  · rw [List.find?_cons_of_neg (by simpa using h), List.find?_filter, if_neg h]
    congr 2
    funext entry
    by_cases hentry : entry.1 == path'
    · have hne : ¬(entry.1 == path) := fun hpath ↦ h (BEq.trans (BEq.symm hpath) hentry)
      simp [hentry, hne]
    · simp [hentry]

theorem expansion?_eq_of_beq {c : Context} {path path' : Path} (h : path == path') :
    c.expansion? path = c.expansion? path' := by
  have hbeq (q : Path) : (q == path) = (q == path') :=
    Bool.eq_iff_iff.2 ⟨fun hq ↦ BEq.trans hq h, fun hq ↦ BEq.trans hq (BEq.symm h)⟩
  simp only [expansion?, hbeq]

theorem decision?_decide (c : Context) (reference reference' : Reference) (decision : Decision) :
    (c.decide reference decision).decision? reference' =
      if reference = reference' then some decision else c.decision? reference' := by
  unfold decision? decide
  by_cases h : reference = reference'
  · simp [h]
  · rw [List.find?_cons_of_neg (by simpa using h), List.find?_filter, if_neg h]
    congr 2
    funext entry
    by_cases hentry : entry.1 = reference'
    · simp [hentry, Ne.symm h]
    · simp [hentry]

/-- The files that were decided on. -/
def decidedFiles (c : Context) : List Path :=
  c.decisions.filterMap (fun entry ↦ entry.2.file?)

theorem mem_decidedFiles {c : Context} {reference : Reference} {path : Path}
    (h : c.decision? reference = some (.located path)) : path ∈ c.decidedFiles := by
  obtain ⟨entry, hentry, hpath⟩ := Option.map_eq_some_iff.1 h
  apply List.mem_filterMap.2
  exact ⟨entry, List.mem_of_find?_eq_some hentry, by simp [hpath, Decision.file?]⟩

theorem decidedFiles_decide (c : Context) (reference : Reference) (decision : Decision) :
    ∃ kept, List.Sublist kept c.decidedFiles ∧
      (c.decide reference decision).decidedFiles = decision.file?.toList ++ kept := by
  refine ⟨(c.decisions.filter (fun entry ↦ entry.1 ≠ reference)).filterMap
    (fun entry ↦ entry.2.file?), List.filter_sublist.filterMap _, ?_⟩
  cases h : decision.file? <;> simp [decidedFiles, decide, h]

/-- Two memories that know the same files and the same decisions. -/
structure SameRecords (c d : Context) : Prop where
  expansions : d.expansions = c.expansions
  decisions : d.decisions = c.decisions
  opened : d.opened = c.opened

theorem SameRecords.refl (c : Context) : SameRecords c c := ⟨rfl, rfl, rfl⟩

theorem SameRecords.trans {c d e : Context} (h : SameRecords c d) (h' : SameRecords d e) :
    SameRecords c e :=
  ⟨h'.expansions.trans h.expansions, h'.decisions.trans h.decisions, h'.opened.trans h.opened⟩

theorem sameRecords_addFolder (c : Context) (folder : Path) :
    SameRecords c (c.addFolder folder) := by
  unfold addFolder
  split <;> exact ⟨rfl, rfl, rfl⟩

theorem sameRecords_start (folders : List Path) :
    SameRecords ⟨[], [], [], false, 0, []⟩ (start folders) := by
  have hfold (c : Context) : SameRecords c (folders.foldl addFolder c) := by
    induction folders generalizing c with
    | nil => exact .refl c
    | cons folder rest ih => exact (sameRecords_addFolder c folder).trans (ih _)
  exact hfold _

/-- Whether nothing has been remembered or decided. -/
def isFresh (c : Context) : Bool :=
  c.expansions.isEmpty && c.decisions.isEmpty

end Context

end Provenance
