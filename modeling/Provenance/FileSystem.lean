import Provenance.Path
import Provenance.Table

/-!
# File systems

A file system is one tree of folders and files together with the folder that relative paths start
from. There are no links, so each file has exactly one sequence of names from the root, and
`canonical?` is the absolute path that spells this sequence.

`locate` walks a path segment by segment, so `nope/../x` is not found when `nope` is missing and
`file/.` is not a folder. Folders list their entries by increasing name, which the type keeps
(`FileSystem.ordered`).

The canonical path of a file is one of finitely many (`canonical_mem_filePaths`), and canonical
paths that name the same components are spelled alike (`absolute_inj`).
-/

namespace Provenance

/-- A file with its bytes, or a folder with its named entries. -/
inductive Entry where
  | file (content : ByteArray)
  | folder (entries : List (String × Entry))
  deriving Inhabited

namespace Entry

/-- The entry that a sequence of names leads to. -/
def find? : List String → Entry → Option Entry
  | [], entry => some entry
  | _ :: _, file _ => none
  | name :: names, folder entries => (Table.find? name entries).bind (find? names)

/-- Puts an entry where a sequence of names leads, making the folders on the way. -/
def put (new : Entry) : List String → Entry → Entry
  | [], _ => new
  | _ :: _, file content => file content
  | name :: names, folder entries =>
    let old := (Table.find? name entries).getD (folder [])
    folder (Table.insert name (put new names old) entries)

mutual

/-- The names that lead to each file of a tree, an entry before its contents and the entries of a
folder in the order in which it lists them. -/
def files : Entry → List (List String)
  | file _ => [[]]
  | folder entries => filesIn entries

/-- The names that lead to each file of a list of entries. -/
def filesIn : List (String × Entry) → List (List String)
  | [] => []
  | (name, entry) :: rest => (files entry).map (name :: ·) ++ filesIn rest

end

mutual

/-- Every folder of the tree lists its entries by strictly increasing name. -/
def Ordered : Entry → Prop
  | file _ => True
  | folder entries => Table.Ordered entries ∧ OrderedIn entries

/-- Every entry of a list is ordered. -/
def OrderedIn : List (String × Entry) → Prop
  | [] => True
  | (_, entry) :: rest => Ordered entry ∧ OrderedIn rest

end

theorem orderedIn_iff (entries : List (String × Entry)) :
    OrderedIn entries ↔ ∀ entry ∈ entries, entry.2.Ordered := by
  induction entries with
  | nil => simp [OrderedIn]
  | cons head rest ih => obtain ⟨name, entry⟩ := head; simp [OrderedIn, ih]

theorem ordered_folder_nil : (folder []).Ordered := by
  simp [Ordered, OrderedIn, Table.Ordered]

theorem ordered_folder_pair {name name' : String} (h : name < name')
    (content content' : ByteArray) :
    (folder [(name, .file content), (name', .file content')]).Ordered := by
  simp only [Ordered, OrderedIn, Table.Ordered, and_true]
  exact List.pairwise_pair.2 h

theorem mem_of_find? {name : String} {entries : List (String × Entry)} {entry : Entry}
    (h : Table.find? name entries = some entry) : (name, entry) ∈ entries := by
  induction entries with
  | nil => simp [Table.find?] at h
  | cons head rest ih =>
    obtain ⟨k, v⟩ := head
    unfold Table.find? at h
    split at h
    · simp_all
    · exact List.mem_cons_of_mem _ (ih h)

theorem mem_filesIn {name : String} {entries : List (String × Entry)} {entry : Entry}
    {names : List String} (h : (name, entry) ∈ entries) (hnames : names ∈ entry.files) :
    name :: names ∈ filesIn entries := by
  induction entries with
  | nil => simp at h
  | cons head rest ih =>
    obtain ⟨k, v⟩ := head
    rcases List.mem_cons.1 h with h | h
    · obtain ⟨rfl, rfl⟩ := Prod.mk.inj h
      simp [filesIn, hnames]
    · simp [filesIn, ih h]

theorem mem_files_of_find? {names : List String} {entry : Entry} {content : ByteArray}
    (h : find? names entry = some (file content)) : names ∈ entry.files := by
  induction names generalizing entry with
  | nil =>
    simp only [find?, Option.some.injEq] at h
    simp [h, files]
  | cons name names ih =>
    cases entry with
    | file _ => simp [find?] at h
    | folder entries =>
      obtain ⟨inner, hinner, hrest⟩ := Option.bind_eq_some_iff.1 h
      exact mem_filesIn (mem_of_find? hinner) (ih hrest)

theorem Ordered.put {new : Entry} (hnew : new.Ordered) (names : List String) {entry : Entry}
    (h : entry.Ordered) : (Entry.put new names entry).Ordered := by
  induction names generalizing entry with
  | nil => simpa [Entry.put] using hnew
  | cons name names ih =>
    cases entry with
    | file content => simpa [Entry.put] using h
    | folder entries =>
      simp only [Ordered, orderedIn_iff] at h
      have hold : ((Table.find? name entries).getD (folder [])).Ordered := by
        cases hf : Table.find? name entries with
        | none => exact ordered_folder_nil
        | some found => exact h.2 _ (mem_of_find? hf)
      simp only [Entry.put, Ordered, orderedIn_iff]
      refine ⟨Table.Ordered.insert h.1 _ _, fun e he ↦ ?_⟩
      rcases Table.mem_insert he with rfl | he
      · exact ih hold
      · exact h.2 e he

end Entry

/-- Why the file system refuses an operation. -/
inductive FileError where
  | notFound
  | notFolder
  | isFolder
  | nameTooLong
  | nulInName
  | notUtf8
  deriving DecidableEq, Repr

namespace FileError

/-- The wording of the operating system, with its number where it has one. -/
def message : FileError → String
  | notFound => "No such file or directory (os error 2)"
  | notFolder => "Not a directory (os error 20)"
  | isFolder => "Is a directory (os error 21)"
  | nameTooLong => "File name too long (os error 36)"
  | nulInName => "file name contained an unexpected NUL byte"
  | notUtf8 => "stream did not contain valid UTF-8"

end FileError

/-- A tree of folders and files, and the names that lead to the working folder. -/
structure FileSystem where
  root : Entry
  workingFolder : List String
  ordered : root.Ordered
  named : ∀ name ∈ workingFolder, IsName name

namespace FileSystem

theorem isName_of_mem_nil : ∀ name ∈ ([] : List String), IsName name :=
  List.forall_mem_nil _

/-- Bytes that a single name may have. -/
def maxNameBytes : Nat := 255

/-- Bytes that a path may have. -/
def maxPathBytes : Nat := 4095

/-- A file system that holds nothing but an empty working folder, to which some names lead. -/
def empty (names : List String) : FileSystem where
  root := Entry.put (.folder []) (names.filter IsName) (.folder [])
  workingFolder := names.filter IsName
  ordered := Entry.Ordered.put Entry.ordered_folder_nil _ Entry.ordered_folder_nil
  named := by simp

def entry? (fs : FileSystem) (names : List String) : Option Entry :=
  fs.root.find? names

/-- Puts an entry where a sequence of names leads. -/
def put (fs : FileSystem) (names : List String) (entry : Entry) (h : entry.Ordered) :
    FileSystem where
  root := Entry.put entry names fs.root
  workingFolder := fs.workingFolder
  ordered := Entry.Ordered.put h names fs.ordered
  named := fs.named

/-- Where a segment leads from a place in the tree. -/
def step (fs : FileSystem) (names : List String) (segment : List Char) :
    Except FileError (List String) :=
  match fs.entry? names with
  | none => .error .notFound
  | some (.file _) => .error .notFolder
  | some (.folder entries) =>
    match Component.ofSegment? segment with
    | none => .ok names
    | some (.normal name) =>
      if maxNameBytes < name.utf8ByteSize then .error .nameTooLong
      else if (Table.find? name entries).isSome then .ok (names ++ [name])
      else .error .notFound
    | some _ => .ok names.dropLast

/-- Where a sequence of segments leads from a place in the tree. -/
def walk (fs : FileSystem) : List (List Char) → List String → Except FileError (List String)
  | [], names => .ok names
  | segment :: segments, names =>
    match fs.step names segment with
    | .error e => .error e
    | .ok names => walk fs segments names

/-- The place that a path starts from. -/
def start (fs : FileSystem) (p : Path) : List String :=
  if p.isAbsolute then [] else fs.workingFolder

/-- What is wrong with a path before the tree is looked at. -/
def unusable? (p : Path) : Option FileError :=
  if '\x00' ∈ p.text.toList then some .nulInName
  else if p.text = "" then some .notFound
  else if maxPathBytes < p.text.utf8ByteSize then some .nameTooLong
  else none

/-- The names that lead to what a path denotes. -/
def locate (fs : FileSystem) (p : Path) : Except FileError (List String) :=
  match unusable? p with
  | some e => .error e
  | none => fs.walk (Text.pieces '/' p.text.toList) (fs.start p)

/-- What a path denotes. -/
def lookup (fs : FileSystem) (p : Path) : Except FileError Entry :=
  match fs.locate p with
  | .error e => .error e
  | .ok names =>
    match fs.entry? names with
    | some entry => .ok entry
    | none => .error .notFound

def isFile (fs : FileSystem) (p : Path) : Bool :=
  match fs.lookup p with
  | .ok (.file _) => true
  | _ => false

def isFolder (fs : FileSystem) (p : Path) : Bool :=
  match fs.lookup p with
  | .ok (.folder _) => true
  | _ => false

/-- Whether a path denotes anything. -/
def holds (fs : FileSystem) (p : Path) : Bool :=
  fs.lookup p matches .ok _

/-- The absolute path that spells a sequence of names from the root. -/
def absolute (names : List String) : Path :=
  ⟨"/" ++ "/".intercalate names⟩

/-- The one absolute path, free of `.`, `..` and doubled separators, of what a path denotes. -/
def canonical? (fs : FileSystem) (p : Path) : Option Path :=
  match fs.locate p with
  | .ok names => if (fs.entry? names).isSome then some (absolute names) else none
  | .error _ => none

/-- The canonical path, or the path as it stands where it denotes nothing. -/
def canonical (fs : FileSystem) (p : Path) : Path :=
  (fs.canonical? p).getD p

/-- The text of a file. -/
def read (fs : FileSystem) (p : Path) : Except FileError String :=
  match fs.lookup p with
  | .error e => .error e
  | .ok (.folder _) => .error .isFolder
  | .ok (.file content) =>
    match String.fromUTF8? content with
    | some text => .ok text
    | none => .error .notUtf8

/-- The place of a file that is to be written, which need not exist yet. -/
def target (fs : FileSystem) (p : Path) : Except FileError (List String) :=
  match unusable? p with
  | some e => .error e
  | none =>
    let segments := Text.pieces '/' p.text.toList
    let named := Text.dropEndWhile List.isEmpty segments
    match fs.walk named.dropLast (fs.start p) with
    | .error e => .error e
    | .ok names =>
      match fs.entry? names with
      | none => .error .notFound
      | some (.file _) => .error .notFolder
      | some (.folder entries) =>
        match Component.ofSegment? (named.getLast?.getD []) with
        | some (.normal name) =>
          if named.length < segments.length then .error .isFolder
          else if maxNameBytes < name.utf8ByteSize then .error .nameTooLong
          else
            match Table.find? name entries with
            | some (.folder _) => .error .isFolder
            | _ => .ok (names ++ [name])
        | _ => .error .isFolder

/-- Writes a file, in place of the one at that path if there is one. -/
def write (fs : FileSystem) (p : Path) (content : ByteArray) : Except FileError FileSystem :=
  match fs.target p with
  | .error e => .error e
  | .ok names => .ok (fs.put names (.file content) (by simp [Entry.Ordered]))

/-- Makes the folders that a path names and that are missing. -/
def makeFolders (fs : FileSystem) (p : Path) : Except FileError FileSystem :=
  match unusable? p with
  | some .notFound => .ok fs
  | some e => .error e
  | none =>
    let enter (state : FileSystem × List String) (segment : List Char) :
        Except FileError (FileSystem × List String) :=
      match state.1.step state.2 segment, Component.ofSegment? segment with
      | .ok names, _ => .ok (state.1, names)
      | .error .notFound, some (.normal name) =>
        let names := state.2 ++ [name]
        .ok (state.1.put names (.folder []) Entry.ordered_folder_nil, names)
      | .error e, _ => .error e
    match (Text.pieces '/' p.text.toList).foldlM enter (fs, fs.start p) with
    | .error e => .error e
    | .ok (fs, names) =>
      if fs.entry? names matches some (.file _) then .error .notFolder else .ok fs

/-- The path that continues `p` by a sequence of names. -/
def below (p : Path) (names : List String) : Path :=
  names.foldl Path.child p

/-- The names that lead from a folder to the files below it, in order. A folder whose path is too
long is not listed. -/
def filesBelow (fs : FileSystem) (p : Path) : List (List String) :=
  match fs.lookup p with
  | .ok (.folder entries) =>
    (Entry.filesIn entries).filter
      (fun names ↦ (below p names.dropLast).text.utf8ByteSize ≤ maxPathBytes)
  | _ => []

/-- The canonical paths of all files. -/
def filePaths (fs : FileSystem) : List Path :=
  fs.root.files.map absolute

/-- The number of files, which bounds how many different files can be open at once. -/
def fileCount (fs : FileSystem) : Nat :=
  fs.root.files.length

theorem length_filePaths (fs : FileSystem) : fs.filePaths.length = fs.fileCount := by
  simp [filePaths, fileCount]

/-! ## Canonical paths -/

theorem isName_of_step {fs : FileSystem} {names after : List String} {segment : List Char}
    (hnames : ∀ name ∈ names, IsName name) (hsep : '/' ∉ segment)
    (h : fs.step names segment = .ok after) : ∀ name ∈ after, IsName name := by
  unfold step at h
  split at h
  · cases h
  · cases h
  · split at h
    · cases h
      exact hnames
    · rename_i name hname
      split at h
      · cases h
      · split at h
        · cases h
          intro n hn
          rcases List.mem_append.1 hn with hn | hn
          · exact hnames n hn
          · rw [List.mem_singleton.1 hn]
            exact Component.isName_of_ofSegment? hname hsep
        · cases h
    · cases h
      exact fun name h ↦ hnames name (List.dropLast_subset names h)

theorem isName_of_walk {fs : FileSystem} {segments : List (List Char)} {names after : List String}
    (hnames : ∀ name ∈ names, IsName name) (hsep : ∀ segment ∈ segments, '/' ∉ segment)
    (h : fs.walk segments names = .ok after) : ∀ name ∈ after, IsName name := by
  induction segments generalizing names with
  | nil =>
    cases h
    exact hnames
  | cons segment segments ih =>
    unfold walk at h
    split at h
    · cases h
    · rename_i next hstep
      have hnext := isName_of_step hnames (hsep segment (by simp)) hstep
      exact ih hnext (fun s hs ↦ hsep s (List.mem_cons_of_mem _ hs)) h

theorem isName_of_locate {fs : FileSystem} {p : Path} {names : List String}
    (h : fs.locate p = .ok names) : ∀ name ∈ names, IsName name := by
  have hstart : ∀ name ∈ fs.start p, IsName name := by
    unfold start
    split
    · simp
    · exact fs.named
  unfold locate at h
  split at h
  · cases h
  · exact isName_of_walk hstart (fun _ ↦ Text.not_mem_of_mem_pieces) h

theorem filterMap_ofSegment? {names : List String} (h : ∀ name ∈ names, IsName name) :
    (names.map String.toList).filterMap Component.ofSegment? = names.map .normal := by
  induction names with
  | nil => rfl
  | cons name rest ih =>
    have hrest := ih (fun n hn ↦ h n (List.mem_cons_of_mem _ hn))
    simpa [Component.ofSegment?_toList (h name (by simp))] using hrest

theorem components_absolute {names : List String} (h : ∀ name ∈ names, IsName name) :
    (absolute names).components = .root :: names.map .normal := by
  have htext : (absolute names).text.toList =
      '/' :: ['/'].intercalate (names.map String.toList) := by
    simp [absolute]
  have hbody : (absolute names).headAndBody =
      (.root, ['/'].intercalate (names.map String.toList)) := by
    simp [Path.headAndBody, htext]
  simp only [Path.components, hbody, Path.Head.components, List.singleton_append]
  congr 1
  cases names with
  | nil => rfl
  | cons name rest =>
    have hsep : ∀ cs ∈ (name :: rest).map String.toList, '/' ∉ cs := by
      intro cs hcs
      obtain ⟨n, hn, rfl⟩ := List.mem_map.1 hcs
      exact (h n hn).2.2.2
    rw [Text.pieces_intercalate (by simp) hsep, filterMap_ofSegment? h]

theorem absolute_inj {a b : List String} (ha : ∀ name ∈ a, IsName name)
    (hb : ∀ name ∈ b, IsName name) : (absolute a == absolute b) = true ↔ a = b := by
  rw [Path.beq_iff, components_absolute ha, components_absolute hb, List.cons.injEq]
  refine ⟨fun h ↦ (List.map_inj_right (fun _ _ h ↦ by injection h)).1 h.2, fun h ↦ by simp [h]⟩

/-- The canonical path of a file spells names that lead to it. -/
theorem exists_canonical_eq {fs : FileSystem} {p : Path} (h : fs.isFile p) :
    ∃ names ∈ fs.root.files, (∀ name ∈ names, IsName name) ∧ fs.canonical p = absolute names := by
  unfold isFile lookup at h
  cases hlocate : fs.locate p with
  | error e => simp [hlocate] at h
  | ok names =>
    cases hentry : fs.entry? names with
    | none => simp [hlocate, hentry] at h
    | some entry =>
      cases entry with
      | folder entries => simp [hlocate, hentry] at h
      | file content =>
        refine ⟨names, Entry.mem_files_of_find? hentry, isName_of_locate hlocate, ?_⟩
        simp [canonical, canonical?, hlocate, hentry]

theorem canonical_mem_filePaths {fs : FileSystem} {p : Path} (h : fs.isFile p) :
    fs.canonical p ∈ fs.filePaths := by
  obtain ⟨names, hmem, -, heq⟩ := exists_canonical_eq h
  exact heq ▸ List.mem_map_of_mem hmem

/-- Canonical paths of files that name the same components are spelled alike. -/
theorem canonical_eq_of_beq {fs : FileSystem} {p q : Path} (hp : fs.isFile p) (hq : fs.isFile q)
    (h : fs.canonical p == fs.canonical q) : fs.canonical p = fs.canonical q := by
  obtain ⟨a, -, ha, hpa⟩ := exists_canonical_eq hp
  obtain ⟨b, -, hb, hqb⟩ := exists_canonical_eq hq
  rw [hpa, hqb] at h ⊢
  rw [(absolute_inj ha hb).1 h]

/-- Whether a path is the canonical path of a file. -/
def IsCanonical (fs : FileSystem) (p : Path) : Prop :=
  ∃ q, fs.isFile q ∧ fs.canonical q = p

theorem IsCanonical.mem_filePaths {fs : FileSystem} {p : Path} (h : fs.IsCanonical p) :
    p ∈ fs.filePaths := by
  obtain ⟨q, hq, rfl⟩ := h
  exact canonical_mem_filePaths hq

theorem IsCanonical.eq_of_beq {fs : FileSystem} {p q : Path} (hp : fs.IsCanonical p)
    (hq : fs.IsCanonical q) (h : p == q) : p = q := by
  obtain ⟨p, hp, rfl⟩ := hp
  obtain ⟨q, hq, rfl⟩ := hq
  exact canonical_eq_of_beq hp hq h

end FileSystem

end Provenance
