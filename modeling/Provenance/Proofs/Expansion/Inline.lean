import Mathlib.Data.List.Perm.Subperm
import Mathlib.Logic.Relation
import Provenance.Expansion.Resolver

/-!
# Expansion by plain recursion

`Resolver.inline?` replaces the calls of a document one after the other, each by what the same
recursion makes of its file. It has no memory, no stack and no operator, and would not end at a call
that leads back to a file that it is part of; the number of nested calls that it may follow is
bounded, and a larger bound changes no result (`inline?_mono`).

The files that the recursion looks into make a relation, `Resolver.Leads`. If no chain of it leads
back, the number of files is enough as a bound (`CallsClean.isSome_inline?`).
-/

open Relation

namespace Provenance

namespace Resolver

variable {σ : Type}

section

variable (r : Resolver σ) (folders : List Path)

/-- The canonical path of the file that the search finds. -/
def locate? (reference : Reference) (document : Path) : Option Path :=
  (r.search? reference document folders).map r.files.canonical

/-- Replaces or leaves a call, given what becomes of the documents in files. -/
def inlineCall (inner : Document → Option Outcome) (o : Outcome) (id : String) : Option Outcome :=
  match o.document.reference? id with
  | none => some o
  | some reference =>
    match r.locate? folders reference o.document.path with
    | none => some (o.mark id reference .missing)
    | some path =>
      match r.load path with
      | .error e => some (o.mark id reference (.malformed e.message))
      | .ok d => (inner d).map (fun result ↦ o.expand id reference (result.definition path))

/-- Replaces every call in a document, if no more than a number of documents are nested. -/
def inline? : Nat → Document → Option Outcome
  | 0, _ => none
  | depth + 1, d => (d.pending.map Node.id).foldlM (r.inlineCall folders (inline? depth)) (.start d)

/-- What the recursion has made of a document when some of its calls are left. -/
def Stage (d : Document) (o : Outcome) (rest : List String) : Prop :=
  ∃ depth before, d.pending.map Node.id = before ++ rest ∧
    before.foldlM (r.inlineCall folders (r.inline? folders depth)) (.start d) = some o

/-- Whether the recursion comes to a call in a document whose reference is located at a path. -/
def Calls (d : Document) (path : Path) : Prop :=
  ∃ o id rest reference, r.Stage folders d o (id :: rest) ∧
    o.document.reference? id = some reference ∧
    r.locate? folders reference o.document.path = some path

/-- Whether a file calls another. What is called from a file is called by the document in it, or by
one of some known documents that claim its path. -/
def Leads (known : List Document) (file path : Path) : Prop :=
  ∃ d, (r.load file = .ok d ∨ d ∈ known ∧ r.files.canonical d.path == file) ∧ r.Calls folders d path

/-- No chain of calls from a file leads into a cycle. -/
def Clean (known : List Document) (file : Path) : Prop :=
  ∀ path, ReflTransGen (r.Leads folders known) file path →
    ¬TransGen (r.Leads folders known) path path

/-- No chain of calls from a document leads into a cycle. -/
def CallsClean (known : List Document) (d : Document) : Prop :=
  ∀ path, r.Calls folders d path → r.Clean folders known path

/-- No chain of calls from a document leads back to a file that is on the chain. -/
structure Acyclic (known : List Document) (d : Document) : Prop where
  no_return : ∀ first path, r.Calls folders d first →
    ReflTransGen (r.Leads folders known) first path → ¬(r.files.canonical d.path == path)
  no_cycle : r.CallsClean folders known d

end

variable {r : Resolver σ} {folders : List Path}

/-! ## The bound -/

theorem inlineCall_mono {inner inner' : Document → Option Outcome}
    (h : ∀ d o, inner d = some o → inner' d = some o) {o o' : Outcome} {id : String}
    (hcall : r.inlineCall folders inner o id = some o') :
    r.inlineCall folders inner' o id = some o' := by
  unfold inlineCall at hcall ⊢
  split
  · simp_all
  · rename_i reference hreference
    simp only [hreference] at hcall
    split
    · simp_all
    · rename_i path hpath
      simp only [hpath] at hcall
      split
      · simp_all
      · rename_i d hload
        simp only [hload] at hcall
        obtain ⟨result, hresult, rfl⟩ := Option.map_eq_some_iff.1 hcall
        rw [h d result hresult, Option.map_some]

theorem foldlM_inlineCall_mono {inner inner' : Document → Option Outcome}
    (h : ∀ d o, inner d = some o → inner' d = some o) {ids : List String} {o o' : Outcome}
    (hids : ids.foldlM (r.inlineCall folders inner) o = some o') :
    ids.foldlM (r.inlineCall folders inner') o = some o' := by
  induction ids generalizing o with
  | nil => exact hids
  | cons id rest ih =>
    rw [List.foldlM_cons] at hids ⊢
    obtain ⟨next, hnext, hrest⟩ := Option.bind_eq_some_iff.1 hids
    exact Option.bind_eq_some_iff.2 ⟨next, inlineCall_mono h hnext, ih hrest⟩

theorem inline?_succ {depth : Nat} {d : Document} {o : Outcome}
    (h : r.inline? folders depth d = some o) : r.inline? folders (depth + 1) d = some o := by
  induction depth generalizing d o with
  | zero => cases h
  | succ depth ih => exact foldlM_inlineCall_mono (fun _ _ ↦ ih) h

theorem inline?_mono {depth depth' : Nat} (hle : depth ≤ depth') {d : Document} {o : Outcome}
    (h : r.inline? folders depth d = some o) : r.inline? folders depth' d = some o := by
  induction hle with
  | refl => exact h
  | step _ ih => exact inline?_succ ih

/-- The bound decides only whether there is a result. -/
theorem inline?_unique {depth depth' : Nat} {d : Document} {o o' : Outcome}
    (h : r.inline? folders depth d = some o) (h' : r.inline? folders depth' d = some o') :
    o = o' := by
  have hmax := inline?_mono (Nat.le_max_left depth depth') h
  have hmax' := inline?_mono (Nat.le_max_right depth depth') h'
  exact Option.some.inj (hmax.symm.trans hmax')

/-! ## Stages -/

theorem stage_start (d : Document) : r.Stage folders d (.start d) (d.pending.map Node.id) :=
  ⟨0, [], rfl, rfl⟩

theorem Stage.next {d : Document} {o o' : Outcome} {id : String} {rest : List String} {depth : Nat}
    (h : r.Stage folders d o (id :: rest))
    (hcall : r.inlineCall folders (r.inline? folders depth) o id = some o') :
    r.Stage folders d o' rest := by
  obtain ⟨depth', before, hids, hbefore⟩ := h
  refine ⟨max depth depth', before ++ [id], by simp [hids], ?_⟩
  have hbefore' := foldlM_inlineCall_mono
    (fun _ _ ↦ inline?_mono (Nat.le_max_right depth depth')) hbefore
  have hcall' := inlineCall_mono (fun _ _ ↦ inline?_mono (Nat.le_max_left depth depth')) hcall
  rw [List.foldlM_append, hbefore']
  simpa using hcall'

theorem Stage.inline {d : Document} {o : Outcome} (h : r.Stage folders d o []) :
    ∃ depth, r.inline? folders depth d = some o := by
  obtain ⟨depth, before, hids, hbefore⟩ := h
  rw [List.append_nil] at hids
  exact ⟨depth + 1, by rw [inline?, hids, hbefore]⟩

theorem Stage.calls {d : Document} {o : Outcome} {id : String} {rest : List String}
    {reference : Reference} {path : Path} (h : r.Stage folders d o (id :: rest))
    (hreference : o.document.reference? id = some reference)
    (hpath : r.locate? folders reference o.document.path = some path) : r.Calls folders d path :=
  ⟨o, id, rest, reference, h, hreference, hpath⟩

/-! ## Chains of calls -/

theorem isCanonical_of_locate? {reference : Reference} {document path : Path}
    (h : r.locate? folders reference document = some path) : r.files.IsCanonical path := by
  obtain ⟨found, hfound, rfl⟩ := Option.map_eq_some_iff.1 h
  exact ⟨found, r.search?_isFile hfound, rfl⟩

theorem Calls.isCanonical {d : Document} {path : Path} (h : r.Calls folders d path) :
    r.files.IsCanonical path := by
  obtain ⟨_, _, _, _, -, -, hpath⟩ := h
  exact isCanonical_of_locate? hpath

theorem leads_of_load {known : List Document} {file path : Path} {d : Document}
    (hload : r.load file = .ok d) (h : r.Calls folders d path) : r.Leads folders known file path :=
  ⟨d, .inl hload, h⟩

theorem Clean.of_leads {known : List Document} {file path : Path} (h : r.Clean folders known file)
    (hleads : r.Leads folders known file path) : r.Clean folders known path :=
  fun _ hrest ↦ h _ (.head hleads hrest)

theorem Clean.of_transGen {known : List Document} {file path : Path}
    (h : r.Clean folders known file) (hchain : TransGen (r.Leads folders known) file path) :
    r.Clean folders known path :=
  fun _ hrest ↦ h _ (hchain.to_reflTransGen.trans hrest)

theorem Clean.not_transGen {known : List Document} {file : Path} (h : r.Clean folders known file) :
    ¬TransGen (r.Leads folders known) file file :=
  h file .refl

/-- A call comes to an end if what is called does. -/
theorem isSome_inlineCall {inner : Document → Option Outcome} {o : Outcome} {id : String}
    (h : ∀ reference path d, o.document.reference? id = some reference →
      r.locate? folders reference o.document.path = some path → r.load path = .ok d →
      (inner d).isSome) :
    (r.inlineCall folders inner o id).isSome := by
  unfold inlineCall
  split
  · rfl
  · rename_i reference hreference
    split
    · rfl
    · rename_i path hpath
      split
      · rfl
      · rename_i d hload
        simpa using h reference path d hreference hpath hload

/-- A document comes to an end if each of its calls does. -/
theorem isSome_inline?_succ {depth : Nat} {d : Document}
    (h : ∀ o id rest, r.Stage folders d o (id :: rest) →
      (r.inlineCall folders (r.inline? folders depth) o id).isSome) :
    (r.inline? folders (depth + 1) d).isSome := by
  have hfold {before rest : List String} {o : Outcome}
      (hids : d.pending.map Node.id = before ++ rest)
      (hbefore : before.foldlM (r.inlineCall folders (r.inline? folders depth)) (.start d) =
        some o) :
      (rest.foldlM (r.inlineCall folders (r.inline? folders depth)) o).isSome := by
    induction rest generalizing before o with
    | nil => rfl
    | cons id rest ih =>
      obtain ⟨next, hnext⟩ :=
        Option.isSome_iff_exists.1 (h o id rest ⟨depth, before, hids, hbefore⟩)
      rw [List.foldlM_cons, hnext]
      have hids' : d.pending.map Node.id = (before ++ [id]) ++ rest := by simp [hids]
      apply ih hids'
      rw [List.foldlM_append, hbefore]
      simpa using hnext
  exact hfold (List.nil_append _).symm rfl

/-- The recursion comes to an end if no chain of calls leads into a cycle: `visited` are the files
that it is inside of, and there are at most `depth` others. -/
theorem isSome_inline?_of_visited {known : List Document} {depth : Nat} {visited : List Path}
    (hnodup : visited.Nodup) (hfiles : visited ⊆ r.files.filePaths) {d : Document}
    (hvisited : ∀ file ∈ visited, ∀ path, r.Calls folders d path →
      TransGen (r.Leads folders known) file path)
    (hclean : r.CallsClean folders known d)
    (hdepth : r.files.fileCount ≤ visited.length + depth) :
    (r.inline? folders (depth + 1) d).isSome := by
  induction depth using Nat.strongRecOn generalizing visited d with
  | _ depth ih =>
    apply isSome_inline?_succ
    intro o id rest hstage
    apply isSome_inlineCall
    intro reference path inner hreference hpath hload
    have hcalls := hstage.calls hreference hpath
    have hnew : path ∉ visited := fun hmem ↦
      (hclean path hcalls).not_transGen (hvisited path hmem path hcalls)
    have hnodup' : (path :: visited).Nodup := List.nodup_cons.2 ⟨hnew, hnodup⟩
    have hfiles' : path :: visited ⊆ r.files.filePaths :=
      List.cons_subset.2 ⟨hcalls.isCanonical.mem_filePaths, hfiles⟩
    -- A file that is not visited yet leaves room in the bound.
    have hcount := (hnodup'.subperm hfiles').length_le
    rw [r.files.length_filePaths, List.length_cons] at hcount
    obtain ⟨depth, rfl⟩ : ∃ less, depth = less + 1 := ⟨depth - 1, by omega⟩
    have hleads {path'} (h : r.Calls folders inner path') : r.Leads folders known path path' :=
      leads_of_load hload h
    apply ih depth (Nat.lt_succ_self depth) hnodup' hfiles'
    · intro file hfile path' h
      rcases List.mem_cons.1 hfile with rfl | hfile
      · exact .single (hleads h)
      · exact .tail (hvisited file hfile path hcalls) (hleads h)
    · intro path' h
      exact (hclean path hcalls).of_leads (hleads h)
    · rw [List.length_cons]
      omega

/-- Without cycles the number of files is a bound that is large enough. -/
theorem CallsClean.isSome_inline? {known : List Document} {d : Document}
    (hclean : r.CallsClean folders known d) :
    (r.inline? folders (r.files.fileCount + 1) d).isSome :=
  isSome_inline?_of_visited List.nodup_nil (List.nil_subset _)
    (fun _ hfile ↦ absurd hfile List.not_mem_nil) hclean (Nat.le_add_left _ _)

end Resolver

end Provenance
