import Mathlib.Data.List.TakeWhile
import Mathlib.Logic.Relation
import Provenance.Proofs.Expansion.Once

/-!
# Circles of files

Files form a circle if each of them contains a call that is looked up and found to mean the next
one, and the last one a call that means the first (`Resolution.Circle`). While a document is
resolved, the frames are a way of this kind, since each is entered by a call of the frame below it
(`Resolution.Tower`): when a call leads back, the frames from there on are a circle, and their labels
are the names on it (`Tower.exists_circle`). A frame that has been left is no part of it.
-/

open Relation

namespace Provenance

/-- The resolution of a document, with the session in which it begins. -/
structure Resolution (σ : Type) where
  resolver : Resolver σ
  document : Document
  session : Session σ

namespace Resolution

variable {σ : Type}

section

variable (run : Resolution σ)

/-- The state in which nothing has been done. -/
def start : Progress σ :=
  run.resolver.begin run.document run.session

/-- The file that the document stands for. -/
def root : Path :=
  run.resolver.files.canonical run.document.path

/-- Whether the resolution comes to a state. -/
def Reaches (p : Progress σ) : Prop :=
  ReflTransGen (fun p q ↦ run.resolver.step p = some q) run.start p

/-- What is expanded as the content of a file: the document itself in its place, or else what is
loaded from the file. -/
def Contains (file : Path) (d : Document) : Prop :=
  if run.root == file then d = run.document else run.resolver.load file = .ok d

/-- The next step from a state looks up a call that the file at hand contains, and its macro is
located. -/
def Looks (p : Progress σ) (file : Path) (reference : Reference) (path : Path) : Prop :=
  ∃ d n queue s, run.Reaches p ∧ p.current.file = file ∧ run.Contains file d ∧ n ∈ d.pending ∧
    n.reference = some reference ∧ p.current.queue = n.id :: queue ∧
      run.resolver.lookup reference d.path p.session = (.located path, s)

/-- Whether a file contains a call that is found to mean another. -/
def Follows (file : Path) (reference : Reference) (path : Path) : Prop :=
  ∃ p, run.Looks p file reference path

/-- A file is expanded under a name: the document's own, or that of the call for which it is
opened. -/
def Named (name : String) (file : Path) : Prop :=
  (file = run.root ∧ name = run.document.name) ∨
    ∃ p caller reference, run.Looks p caller reference file ∧ p.knows file = false ∧
      reference.name = name

/-- A way through files, from one that is expanded under a name: each of them contains a call, and
this leads to the next file, or in the end to a path. -/
inductive Way (name : String) (first : Path) : List (Path × Reference) → Path → Prop
  | here (hnamed : run.Named name first) : Way name first [] first
  | call {calls file reference path} (h : Way name first calls file)
      (hfollows : run.Follows file reference path) :
      Way name first (calls ++ [(file, reference)]) path

/-- Different files, each of which contains a call of the next one, and the last one a call of the
first, which is expanded under a name. -/
structure Circle (name : String) (calls : List (Path × Reference)) : Prop where
  distinct : (calls.map Prod.fst).Pairwise (fun a b ↦ ¬a == b)
  nonempty : calls ≠ []
  returns : ∃ first path, run.Way name first calls path ∧ first == path

/-- Whether a file contains a call of another, however that is spelled. -/
def Calls (file path : Path) : Prop :=
  ∃ reference found, run.Follows file reference found ∧ found == path

/-- A frame above some others was entered by a call of the frame below it, under the name that this
gives to the file. -/
inductive Tower : Frame → List Caller → Prop
  | root {frame} (hfile : frame.file = run.root) (hlabel : frame.label = run.document.name) :
      Tower frame []
  | called {frame caller callers p} (hcaller : Tower caller.frame callers)
      (hlooks : run.Looks p caller.frame.file caller.reference frame.file)
      (hnew : p.knows frame.file = false) (hlabel : frame.label = caller.reference.name) :
      Tower frame (caller :: callers)

end

variable {run : Resolution σ}

/-! ## States that a resolution comes to -/

/-- What holds at the beginning and is kept by every step holds in every state that a resolution
comes to. -/
theorem Reaches.induct {kept : Progress σ → Prop} (hstart : kept run.start)
    (hstep : ∀ p q, run.Reaches p → run.resolver.step p = some q → kept p → kept q)
    {p : Progress σ} (h : run.Reaches p) : kept p := by
  induction h with
  | refl => exact hstart
  | tail hreaches hnext ih => exact hstep _ _ hreaches hnext ih

theorem reaches_run (run : Resolution σ) : run.Reaches (run.resolver.run run.start) := by
  have hsteps (p : Progress σ) :
      ReflTransGen (fun p q ↦ run.resolver.step p = some q) p (run.resolver.run p) := by
    induction p using Resolver.run_induct (r := run.resolver) with
    | done p hstep => rw [Resolver.run_of_step_none hstep]
    | step p q hstep ih =>
      rw [Resolver.run_of_step_some hstep]
      exact .head hstep ih
  exact hsteps _

theorem contains_root (run : Resolution σ) : run.Contains run.root run.document := by
  rw [Contains, if_pos BEq.rfl]

/-! ## Circles are cycles of calls -/

theorem Way.transGen {name : String} {first path : Path} {calls : List (Path × Reference)}
    (h : run.Way name first calls path) (hcalls : calls ≠ []) {target : Path}
    (htarget : path == target) : TransGen run.Calls first target := by
  induction h generalizing target with
  | here => exact absurd rfl hcalls
  | @call calls file reference path h hfollows ih =>
    have hlast : run.Calls file target := ⟨reference, path, hfollows, htarget⟩
    cases h with
    | here => exact .single hlast
    | call => exact .tail (ih (by simp) BEq.rfl) hlast

theorem Circle.transGen {name : String} {calls : List (Path × Reference)}
    (h : run.Circle name calls) : ∃ file, TransGen run.Calls file file := by
  obtain ⟨first, path, hway, heq⟩ := h.returns
  exact ⟨first, hway.transGen h.nonempty (BEq.symm heq)⟩

/-! ## The frames as a way through files -/

theorem Tower.of_eq {frame frame' : Frame} {callers : List Caller} (h : run.Tower frame callers)
    (hfile : frame'.file = frame.file) (hlabel : frame'.label = frame.label) :
    run.Tower frame' callers := by
  cases h with
  | root hroot hname => exact .root (hfile.trans hroot) (hlabel.trans hname)
  | called hcaller hlooks hnew hname =>
    exact .called hcaller (hfile ▸ hlooks) (hfile ▸ hnew) (hlabel.trans hname)

theorem Tower.root_mem {frame : Frame} {callers : List Caller} (h : run.Tower frame callers) :
    run.root ∈ ((callers.map Caller.frame).reverse ++ [frame]).map Frame.file := by
  induction h with
  | root hroot => simp [hroot]
  | called _ _ _ _ ih =>
    rw [List.map_cons, List.reverse_cons, List.map_append]
    exact List.mem_append_left _ ih

/-- A file that is not expanded is not the one that the document stands for. -/
theorem Tower.root_ne {p : Progress σ} (h : run.Tower p.current p.callers) {path : Path}
    (hexpands : p.expands path = false) : ¬run.root == path := by
  intro heq
  rw [Progress.expands_iff.2 ⟨run.root, h.root_mem, heq⟩] at hexpands
  cases hexpands

/-- From a file that is being expanded the frames are a way to the one at hand, and their labels are
the names on it. -/
theorem Tower.exists_way {frame : Frame} {callers : List Caller} (h : run.Tower frame callers)
    {path : Path} (hmem : ∃ f ∈ (callers.map Caller.frame).reverse ++ [frame], f.file == path) :
    ∃ name first calls, run.Way name first calls frame.file ∧ first == path ∧
      let frames := ((callers.map Caller.frame).reverse ++ [frame]).dropWhile
        (fun f ↦ !(f.file == path))
      frames.map Frame.file = calls.map Prod.fst ++ [frame.file] ∧
        frames.map Frame.label = name :: calls.map (fun call ↦ call.2.name) := by
  induction h with
  | @root frame hfile hlabel =>
    obtain ⟨f, hf, heq⟩ := hmem
    obtain rfl := List.mem_singleton.1 hf
    exact ⟨f.label, f.file, [], .here (.inl ⟨hfile, hlabel⟩), heq, by simp [heq], by simp [heq]⟩
  | @called frame caller callers p hcaller hlooks hnew hlabel ih =>
    have hframes : ((caller :: callers).map Caller.frame).reverse ++ [frame] =
        (callers.map Caller.frame).reverse ++ [caller.frame] ++ [frame] := by simp
    rw [hframes, List.dropWhile_append]
    by_cases hbelow : ∃ f ∈ (callers.map Caller.frame).reverse ++ [caller.frame], f.file == path
    · obtain ⟨name, first, calls, hway, hfirst, hfiles, hlabels⟩ := ih hbelow
      refine ⟨name, first, calls ++ [(caller.frame.file, caller.reference)],
        hway.call ⟨p, hlooks⟩, hfirst, ?_⟩
      rw [if_neg]
      · simp [hfiles, hlabels, hlabel]
      · rw [List.isEmpty_iff]
        intro hnil
        simp [hnil] at hfiles
    · have heq : frame.file == path := by
        obtain ⟨f, hf, heq⟩ := hmem
        rw [hframes] at hf
        rcases List.mem_append.1 hf with hlower | hlast
        · exact absurd ⟨f, hlower, heq⟩ hbelow
        · exact List.mem_singleton.1 hlast ▸ heq
      have hnone : ((callers.map Caller.frame).reverse ++ [caller.frame]).dropWhile
          (fun f ↦ !(f.file == path)) = [] := by
        apply List.dropWhile_eq_nil_iff.2
        intro f hf
        simpa using fun hf' ↦ hbelow ⟨f, hf, hf'⟩
      refine ⟨frame.label, frame.file, [],
        .here (.inr ⟨p, caller.frame.file, caller.reference, hlooks, hnew, hlabel.symm⟩), heq, ?_⟩
      simp [hnone, heq]

/-- A call that leads back to a file that is being expanded closes a circle. -/
theorem Tower.exists_circle {p : Progress σ} (h : run.Tower p.current p.callers)
    (hdistinct : p.files.Pairwise (fun a b ↦ ¬a == b)) {reference : Reference} {path : Path}
    {labels : List String} (hlabels : p.labelsFrom? path = some labels)
    (hlooks : run.Looks p p.current.file reference path) :
    ∃ name calls, run.Circle name calls ∧
      calls.getLast? = some (p.current.file, reference) ∧
        labels ++ [reference.name] = name :: calls.map (fun call ↦ call.2.name) := by
  unfold Progress.labelsFrom? at hlabels
  split at hlabels
  · rename_i hexpands
    obtain ⟨f, hf, heq⟩ := List.any_eq_true.1 hexpands
    obtain ⟨name, first, calls, hway, hfirst, hfiles, hnames⟩ := h.exists_way ⟨f, hf, heq⟩
    have hlabels := (Option.some.inj hlabels).symm.trans hnames
    refine ⟨name, calls ++ [(p.current.file, reference)],
      ⟨?_, by simp, first, path, hway.call ⟨p, hlooks⟩, hfirst⟩, by simp, by simp [hlabels]⟩
    have hsub : (calls ++ [(p.current.file, reference)]).map Prod.fst =
        (p.frames.dropWhile (fun f ↦ !(f.file == path))).map Frame.file := by
      rw [List.map_append]
      exact hfiles.symm
    rw [hsub]
    exact hdistinct.sublist ((List.dropWhile_sublist _).map _)
  · cases hlabels

end Resolution

end Provenance
