import Mathlib.Data.List.Forall2
import Mathlib.Data.List.TakeWhile
import Provenance.Document.Source
import Provenance.Expansion.Search
import Provenance.Proofs.FileSystem.Leading
import Provenance.Proofs.Path.Components

/-!
# The folders that a search probes

Apart from the declared path, a search puts the name of the file behind the path of one folder after
another. If that name is the name of one entry, each place is an entry of the folder that is probed.
A declared path gives such a name, or one under which there is no file. An annotation or a tool
identifier need not: nothing is cut off from it at a separator, so that the places lie elsewhere
(`candidates_isEntryOf_iff`), as in `candidates_outside`.
-/

namespace Provenance

namespace Path

variable {p q folder : Path} {name : String}

/-- A path is that of a folder with the name of an entry behind it. -/
def IsEntryOf (p folder : Path) : Prop :=
  ∃ name, IsName name ∧ p = folder.join ⟨name⟩

/-- The last segment of a path, which is empty after a separator at its end. -/
def lastSegment (p : Path) : String :=
  String.ofList ((Text.pieces '/' p.text.toList).getLast (Text.pieces_ne_nil '/' _))

theorem lastSegment_join (h : '/' ∉ q.text.toList) (p : Path) :
    (p.join q).lastSegment = q.text := by
  have hpieces := Text.pieces_of_not_mem h
  unfold lastSegment
  simp only [toList_join (isAbsolute_eq_false h)]
  rcases p.opening_eq with hopening | ⟨before, hopening⟩
  · simp [hopening, hpieces]
  · simp [hopening, hpieces, Text.pieces_append]

theorem eq_of_text_eq {p q : Path} (h : p.text = q.text) : p = q := by
  obtain ⟨text⟩ := p
  exact congrArg Path.mk h

theorem isEntryOf_iff : p.IsEntryOf folder ↔
    IsName p.lastSegment ∧ p.text = (folder.join ⟨p.lastSegment⟩).text := by
  constructor
  · rintro ⟨name, hname, rfl⟩
    have hlast : (folder.join ⟨name⟩).lastSegment = name := lastSegment_join hname.2.2.2 folder
    rw [hlast]
    exact ⟨hname, rfl⟩
  · rintro ⟨hname, htext⟩
    exact ⟨p.lastSegment, hname, eq_of_text_eq htext⟩

instance (p folder : Path) : Decidable (p.IsEntryOf folder) :=
  decidable_of_iff _ isEntryOf_iff.symm

theorem isEntryOf_join_iff (h : q.isAbsolute = false) : (p.join q).IsEntryOf p ↔ IsName q.text := by
  constructor
  · rintro ⟨name, hname, hjoin⟩
    have htext := congrArg (fun path ↦ path.text.toList) hjoin
    rw [toList_join h, toList_join hname.isAbsolute_eq_false, List.append_cancel_left_eq] at htext
    rwa [String.toList_inj.1 htext]
  · intro hname
    exact ⟨q.text, hname, rfl⟩

/-- A file has a name. -/
theorem isName_lastSegment {fs : FileSystem} (h : fs.isFile p) : IsName p.lastSegment := by
  obtain ⟨-, names, content, hlead, hentry⟩ := FileSystem.isFile_iff.1 h
  rw [FileSystem.lead, ← List.dropLast_concat_getLast (Text.pieces_ne_nil '/' _)] at hlead
  obtain ⟨place, -, hstep⟩ := FileSystem.exists_of_walk_concat hlead
  obtain ⟨name, hname⟩ := FileSystem.exists_name_of_step hstep hentry
  have hsep := Text.not_mem_of_mem_pieces (List.getLast_mem (Text.pieces_ne_nil '/' p.text.toList))
  have hsegment : name = p.lastSegment := by
    rcases Component.eq_of_ofSegment? hname with h | h <;> cases h
    rfl
  exact hsegment ▸ Component.isName_of_ofSegment? hname hsep

end Path

namespace Reference

theorem not_mem_lastComponent (declared : String) : '/' ∉ (lastComponent declared).toList := by
  rw [lastComponent, String.toList_ofList, Text.afterLast, List.mem_reverse]
  intro hmem
  simpa using List.mem_takeWhile_imp hmem

/-- When the name of a reference's file is that of one entry of a folder. -/
theorem isName_fileName_iff (r : Reference) : IsName r.fileName ↔
    match r.declaredPath with
    | some declared => lastComponent declared ∉ ["", ".", ".."]
    | none => '/' ∉ r.name.toList := by
  unfold fileName
  cases r.declaredPath with
  | some declared => simp [IsName, not_mem_lastComponent]
  | none =>
    have hlong (text : String) (h : text.length < 5) : r.name ++ fileExtension ≠ text := by
      rintro rfl
      rw [String.length_append, show fileExtension.length = 5 from rfl] at h
      omega
    have hsep : '/' ∈ (r.name ++ fileExtension).toList ↔ '/' ∈ r.name.toList := by
      simp [fileExtension]
    rw [IsName, hsep]
    exact ⟨fun h ↦ h.2.2.2,
      fun h ↦ ⟨hlong "" (by decide), hlong "." (by decide), hlong ".." (by decide), h⟩⟩

end Reference

namespace Node

open Markup (Element)

/-- What a tool without a plugin says about its macro gives the name of one entry: the declared path
ends in a name, or else the annotation, or else the identifier, has no separator. -/
def NamesEntry (id : String) (e : Element) : Prop :=
  match declaredMacro? e with
  | some declared => Reference.lastComponent declared ∉ ["", ".", ".."]
  | none => '/' ∉ ((annotation? e).getD id).toList

theorem isName_fileName_referenceOf (id : String) (e : Element) :
    IsName (referenceOf id e).fileName ↔ NamesEntry id e := by
  rw [Reference.isName_fileName_iff]
  unfold referenceOf NamesEntry
  cases declaredMacro? e with
  | some declared => rfl
  | none => cases annotation? e <;> simp [Reference.named]

end Node

namespace Search

open Markup (Element)

/-- The folders in which a search looks for a file by its name alone, in order. -/
def probedFolders (options : SearchOptions) (folder : Path) (searchFolders : List Path) :
    List Path :=
  [folder, folder.join macroFolder, folder.join capitalMacroFolder] ++ searchFolders ++
    match options.includeParent, folder.parent? with
    | true, some parent => [parent, parent.join macroFolder]
    | _, _ => []

variable {options : SearchOptions} {folder : Path} {searchFolders : List Path}

theorem candidates_eq (options : SearchOptions) (r : Reference) (folder : Path)
    (searchFolders : List Path) :
    candidates options r folder searchFolders = declared r folder ++
      (probedFolders options folder searchFolders).map (·.join ⟨r.fileName⟩) := by
  unfold candidates near beside above probedFolders
  cases options.includeParent <;> cases folder.parent? <;> simp

theorem opening_join_macroFolder (folder : Path) :
    (folder.join macroFolder).opening = folder.opening ++ ['m', 'a', 'c', 'r', 'o', 's', '/'] := by
  have hjoin : (folder.join macroFolder).text.toList =
      folder.opening ++ ['m', 'a', 'c', 'r', 'o', 's'] :=
    Path.toList_join rfl folder
  have hopen : ¬((folder.join macroFolder).text = "" ∨
      (folder.join macroFolder).text.toList.getLast? = some '/') := by
    rw [← String.toList_inj, hjoin]
    simp
  rw [Path.opening, if_neg hopen, hjoin, List.append_assoc]
  rfl

/-- No path is an entry of a folder and of the folder of macros in it. -/
theorem not_isEntryOf_macroFolder {p : Path} (h : p.IsEntryOf folder) :
    ¬p.IsEntryOf (folder.join macroFolder) := by
  rintro ⟨name, hname, rfl⟩
  obtain ⟨name', hname', hjoin⟩ := h
  have htext := congrArg (fun path ↦ path.text.toList) hjoin
  rw [Path.toList_join hname.isAbsolute_eq_false, Path.toList_join hname'.isAbsolute_eq_false,
    opening_join_macroFolder, List.append_assoc, List.append_cancel_left_eq] at htext
  exact hname'.2.2.2 (htext ▸ by simp)

theorem forall₂_isEntryOf_iff (file : Path) :
    List.Forall₂ Path.IsEntryOf ((probedFolders options folder searchFolders).map (·.join file))
        (probedFolders options folder searchFolders) ↔ IsName file.text := by
  rw [List.forall₂_map_left_iff, List.forall₂_same]
  constructor
  · intro h
    have hfolder : (folder.join file).IsEntryOf folder := h _ (by simp [probedFolders])
    cases habsolute : file.isAbsolute with
    | false => exact (Path.isEntryOf_join_iff habsolute).1 hfolder
    | true =>
      have hmacros := h (folder.join macroFolder) (by simp [probedFolders])
      rw [Path.join_of_isAbsolute habsolute] at hfolder hmacros
      exact absurd hmacros (not_isEntryOf_macroFolder hfolder)
  · intro hname probed _
    exact (Path.isEntryOf_join_iff hname.isAbsolute_eq_false).2 hname

/-- Apart from the declared path, which comes first, a search puts the name of the file behind the
paths of the probed folders. All places are entries of the folders that are probed exactly if what
the tool says names an entry. If it declares a path, at least the places with a file are. -/
theorem candidates_isEntryOf_iff (id : String) (e : Element) (options : SearchOptions)
    (folder : Path) (searchFolders : List Path) :
    ∃ probes, candidates options (Node.referenceOf id e) folder searchFolders =
        declared (Node.referenceOf id e) folder ++ probes ∧
      (List.Forall₂ Path.IsEntryOf probes (probedFolders options folder searchFolders) ↔
        Node.NamesEntry id e) ∧
      ((Node.declaredMacro? e).isSome → ∀ fs : FileSystem,
        List.Forall₂ (fun place probed ↦ fs.isFile place → place.IsEntryOf probed) probes
          (probedFolders options folder searchFolders)) := by
  refine ⟨_, candidates_eq .., ?_, fun hdeclared fs ↦ ?_⟩
  · rw [forall₂_isEntryOf_iff, Node.isName_fileName_referenceOf]
  · rw [List.forall₂_map_left_iff, List.forall₂_same]
    intro probed _ hfile
    obtain ⟨declared, hdeclared⟩ := Option.isSome_iff_exists.1 hdeclared
    have hname : (Node.referenceOf id e).fileName = Reference.lastComponent declared := by
      rw [Node.referenceOf, hdeclared]
      rfl
    rw [hname] at hfile ⊢
    have hlast : (probed.join ⟨Reference.lastComponent declared⟩).lastSegment =
        Reference.lastComponent declared :=
      Path.lastSegment_join (Reference.not_mem_lastComponent declared) probed
    exact ⟨_, hlast ▸ Path.isName_lastSegment hfile, rfl⟩

/-- A tool without a plugin whose annotation has separators. -/
def strayElement : Element :=
  ⟨"Node", [("ToolID", "1")],
    [⟨"Properties", [], [⟨"Annotation", [], [⟨"Name", [], [], "../private/Secret"⟩], ""⟩], ""⟩], ""⟩

/-- A working folder with a workflow in `flows` and a macro in `private`. -/
def strayFiles : FileSystem :=
  ((FileSystem.empty ["w"]).put ["w", "flows", "D.yxmd"] (.file ⟨#[]⟩) trivial).put
    ["w", "private", "Secret.yxmc"] (.file ⟨#[]⟩) trivial

/-- No place of the search for this macro is in a probed folder, and in one of them it is found. -/
theorem candidates_outside :
    let r := Node.referenceOf "1" strayElement
    (declared r ⟨"flows"⟩).isEmpty ∧
      (∀ place ∈ candidates .everywhere r ⟨"flows"⟩ [⟨"lib"⟩],
        ¬∃ probed ∈ probedFolders .everywhere ⟨"flows"⟩ [⟨"lib"⟩], place.IsEntryOf probed) ∧
      (find? strayFiles .everywhere r ⟨"flows"⟩ [⟨"lib"⟩]).map Path.text =
        some "flows/../private/Secret.yxmc" := by
  decide +kernel

end Search

end Provenance
