import Provenance.FileSystem

/-!
# Listings of folders

The files below a folder are listed by the names that lead to them, and nothing else is listed
(`mem_filesBelow_iff`); only the path of the folder that a file is in must not be too long, as it is
not if the file can be opened (`utf8ByteSize_below_dropLast_le`). The files stand in the lexicographic
order of these names, because every folder of a tree lists its entries by increasing name
(`pairwise_filesBelow`).
-/

namespace Provenance

namespace Entry

theorem exists_of_mem_filesIn {names : List String} {entries : List (String × Entry)}
    (h : names ∈ filesIn entries) :
    ∃ name entry rest, (name, entry) ∈ entries ∧ rest ∈ entry.files ∧ names = name :: rest := by
  induction entries with
  | nil => cases h
  | cons head others ih =>
    obtain ⟨name, entry⟩ := head
    rcases List.mem_append.1 h with h | h
    · obtain ⟨rest, hrest, rfl⟩ := List.mem_map.1 h
      exact ⟨name, entry, rest, List.mem_cons_self, hrest, rfl⟩
    · obtain ⟨name', entry', rest, hmem, hrest⟩ := ih h
      exact ⟨name', entry', rest, List.mem_cons_of_mem _ hmem, hrest⟩

/-- The files are listed, and nothing else is. -/
theorem mem_files_iff {entry : Entry} (h : entry.Ordered) (names : List String) :
    names ∈ entry.files ↔ ∃ content, find? names entry = some (file content) := by
  refine ⟨fun hmem ↦ ?_, fun ⟨_, hfind⟩ ↦ mem_files_of_find? hfind⟩
  induction names generalizing entry with
  | nil =>
    cases entry with
    | file content => exact ⟨content, rfl⟩
    | folder entries =>
      obtain ⟨_, _, _, _, _, hnames⟩ := exists_of_mem_filesIn hmem
      cases hnames
  | cons name rest ih =>
    cases entry with
    | file content => simp [files] at hmem
    | folder entries =>
      obtain ⟨_, inner, _, hentry, hrest, heq⟩ := exists_of_mem_filesIn hmem
      cases heq
      have hinner : inner.Ordered := (orderedIn_iff entries).1 h.2 _ hentry
      simpa only [find?, Table.Ordered.find?_eq_some h.1 hentry, Option.bind_some] using
        ih hinner hrest

-- by recursion on the tree, as the listing itself
mutual

/-- The files of a tree are listed in the lexicographic order of the names that lead to them. -/
theorem pairwise_files : ∀ {entry : Entry}, entry.Ordered → entry.files.Pairwise (· < ·)
  | .file _, _ => List.pairwise_singleton ..
  | .folder _, h => pairwise_filesIn h.1 h.2

theorem pairwise_filesIn : ∀ {entries : List (String × Entry)},
    Table.Ordered entries → OrderedIn entries → (filesIn entries).Pairwise (· < ·)
  | [], _, _ => List.Pairwise.nil
  | (name, entry) :: rest, hkeys, hentries => by
    obtain ⟨hname, hrest⟩ := List.pairwise_cons.1 hkeys
    refine List.pairwise_append.2 ⟨?_, pairwise_filesIn hrest hentries.2, ?_⟩
    · refine List.pairwise_map.2 ((pairwise_files hentries.1).imp fun hlt ↦ ?_)
      exact List.cons_lt_cons_iff.2 (.inr ⟨rfl, hlt⟩)
    · intro first hfirst later hlater
      obtain ⟨_, _, rfl⟩ := List.mem_map.1 hfirst
      obtain ⟨_, _, _, hmem, _, rfl⟩ := exists_of_mem_filesIn hlater
      exact List.cons_lt_cons_iff.2 (.inl (hname _ hmem))

end

theorem Ordered.find? {names : List String} {entry inner : Entry} (h : entry.Ordered)
    (hfind : Entry.find? names entry = some inner) : inner.Ordered := by
  induction names generalizing entry with
  | nil =>
    cases hfind
    exact h
  | cons name rest ih =>
    cases entry with
    | file content => cases hfind
    | folder entries =>
      obtain ⟨next, hnext, hrest⟩ := Option.bind_eq_some_iff.1 hfind
      exact ih ((orderedIn_iff entries).1 h.2 _ (mem_of_find? hnext)) hrest

end Entry

namespace FileSystem

variable {fs : FileSystem} {p : Path}

theorem ordered_of_lookup {entry : Entry} (h : fs.lookup p = .ok entry) : entry.Ordered := by
  unfold lookup at h
  split at h
  · cases h
  · split at h
    · rename_i hentry
      cases h
      exact fs.ordered.find? hentry
    · cases h

/-- The path of the folder that an entry is in is no longer than that of the entry. -/
theorem utf8ByteSize_below_dropLast_le (p : Path) (names : List String) :
    (below p names.dropLast).text.utf8ByteSize ≤ (below p names).text.utf8ByteSize := by
  rcases List.eq_nil_or_concat names with rfl | ⟨front, name, rfl⟩
  · exact Nat.le_refl _
  · rw [List.concat_eq_append, List.dropLast_concat, below, below, List.foldl_append]
    exact Path.utf8ByteSize_le_child _ _

theorem mem_filesBelow_iff (names : List String) :
    names ∈ fs.filesBelow p ↔
      (∃ entries content, fs.lookup p = .ok (.folder entries) ∧
        Entry.find? names (.folder entries) = some (.file content)) ∧
      (below p names.dropLast).text.utf8ByteSize ≤ maxPathBytes := by
  unfold filesBelow
  split
  · rename_i entries hlookup
    have hfiles := Entry.mem_files_iff (ordered_of_lookup hlookup) names
    rw [List.mem_filter, decide_eq_true_iff]
    exact and_congr_left fun _ ↦ by simpa [hlookup, Entry.files] using hfiles
  · rename_i hlookup
    simp only [List.not_mem_nil, false_iff]
    rintro ⟨⟨entries, content, hfolder, -⟩, -⟩
    exact hlookup entries hfolder

theorem pairwise_filesBelow (fs : FileSystem) (p : Path) :
    (fs.filesBelow p).Pairwise (· < ·) := by
  unfold filesBelow
  split
  · rename_i entries hlookup
    exact (Entry.pairwise_files (ordered_of_lookup hlookup)).filter _
  · exact List.Pairwise.nil

end FileSystem

end Provenance
