import Provenance.Proofs.Expansion.Inline

/-!
# The run agrees with the plain recursion

If nobody is asked, the frames of a run are the places that the plain recursion is inside of, and
what is remembered of a file is what the plain recursion makes of it (`Resolver.Refines`). Both can
fail where a call leads back: the cycle is marked in whatever frame closes it, and the marked macro
is remembered. Such a file is not clean, though, and what a clean document calls is clean, so that
the invariant is claimed for clean files only and every move keeps it (`Refines.move`).

A document need not be what is in the file at its path, and while it is expanded a call of that file
counts as a call of the document. What is remembered afterwards depends on this, which is why
`inline?_eq_resolve` asks that no chain of calls leads back even where the files of earlier
documents are read as those documents; `inline?_ne_resolve_impostor` shows that it would be wrong
otherwise.
-/

open Relation

namespace Provenance

namespace Resolver

variable {σ : Type}

section

variable (r : Resolver σ) (folders : List Path) (known : List Document)

/-- Nothing but the search decides which file a reference means. -/
structure Quiet (s : Session σ) : Prop where
  folders : s.context.searchFolders = folders
  decisions : s.context.decisions = []

/-- What the plain recursion makes of a file. -/
def Yields (file : Path) : Expansion → Prop
  | .failed gap => ∃ e, r.load file = .error e ∧ gap = .malformed e.message
  | .expanded definition => ∃ d depth o, r.load file = .ok d ∧
      r.inline? folders depth d = some o ∧ definition = o.definition file

/-- What is remembered of clean files is what the plain recursion makes of them. -/
def Remembers (c : Context) : Prop :=
  ∀ file e, r.files.IsCanonical file → c.expansion? file = some e → r.Clean folders known file →
    r.Yields folders file e

/-- A frame has done what the plain recursion does with a document, unless that leads into a
cycle. -/
def Tracks (d : Document) (o : Outcome) (rest : List String) : Prop :=
  r.CallsClean folders known d → r.Stage folders d o rest

/-- A frame above some others expands a document: the one that the run began with, or the one in the
file that the frame below waits for. -/
inductive Expands (root : Document) : Frame → List Caller → Document → Prop
  | root {frame} (hfile : frame.file = r.files.canonical root.path) : Expands root frame [] root
  | called {frame caller callers d d'} (hcaller : Expands root caller.frame callers d)
      (htracks : r.Tracks folders known d caller.frame.outcome
        (caller.callSite :: caller.frame.queue))
      (hreference : caller.frame.outcome.document.reference? caller.callSite =
        some caller.reference)
      (hpath : r.locate? folders caller.reference caller.frame.outcome.document.path =
        some frame.file)
      (hload : r.load frame.file = .ok d') : Expands root frame (caller :: callers) d'

/-- The state of a run is one of the plain recursion, as far as that does not lead into a cycle. -/
structure Refines (root : Document) (p : Progress σ) : Prop where
  quiet : Quiet folders p.session
  remembers : r.Remembers folders known p.session.context
  frames : ∃ d, r.Expands folders known root p.current p.callers d ∧
    r.Tracks folders known d p.current.outcome p.current.queue

end

variable {r : Resolver σ} {folders : List Path} {known : List Document}

/-! ## Look-ups -/

section

variable (hquiet : r.operator.isInteractive = false) {s s' : Session σ} (hs : Quiet folders s)
  {reference : Reference} {document : Path}

include hquiet hs

theorem lookup_of_quiet :
    r.lookup reference document s =
      ((r.locate? folders reference document).elim (.unresolved .missing) .located, s) := by
  unfold lookup locate?
  rw [hs.folders]
  cases r.search? reference document folders with
  | some found => rfl
  | none => simp [Context.decision?, hs.decisions, hquiet]

theorem locate?_of_located {path : Path}
    (h : r.lookup reference document s = (.located path, s')) :
    r.locate? folders reference document = some path ∧ s' = s := by
  rw [lookup_of_quiet hquiet hs] at h
  cases hpath : r.locate? folders reference document <;> simp_all

theorem locate?_of_unresolved {gap : Gap}
    (h : r.lookup reference document s = (.unresolved gap, s')) :
    r.locate? folders reference document = none ∧ gap = .missing ∧ s' = s := by
  rw [lookup_of_quiet hquiet hs] at h
  cases hpath : r.locate? folders reference document <;> simp_all

end

/-! ## Frames -/

theorem CallsClean.of_load {file : Path} {d : Document} (hload : r.load file = .ok d)
    (h : r.Clean folders known file) : r.CallsClean folders known d :=
  fun _ hcalls ↦ h.of_leads (leads_of_load hload hcalls)

theorem Expands.of_file_eq {root d : Document} {frame frame' : Frame} {callers : List Caller}
    (h : r.Expands folders known root frame callers d) (hfile : frame'.file = frame.file) :
    r.Expands folders known root frame' callers d := by
  cases h with
  | root hroot => exact .root (hfile.trans hroot)
  | called hcaller htracks hreference hpath hload =>
    exact .called hcaller htracks hreference (hfile ▸ hpath) (hfile ▸ hload)

/-- What is called from the frame at hand is reached from the clean file of any frame. -/
theorem Expands.transGen {root d : Document} {frame : Frame} {callers : List Caller}
    (h : r.Expands folders known root frame callers d) (hroot : root ∈ known) {file : Path}
    (hfile : r.files.IsCanonical file) (hclean : r.Clean folders known file)
    (hmem : ∃ f ∈ frame :: callers.map Caller.frame, f.file == file) {path : Path}
    (hcalls : r.Calls folders d path) : TransGen (r.Leads folders known) file path := by
  induction h generalizing path with
  | @root frame hframe =>
    obtain ⟨f, hf, heq⟩ := hmem
    obtain rfl := List.mem_singleton.1 hf
    rw [hframe] at heq
    exact .single ⟨root, .inr ⟨hroot, heq⟩, hcalls⟩
  | @called frame caller callers d d' hcaller htracks hreference hpath hload ih =>
    have hcanonical : r.files.IsCanonical frame.file := isCanonical_of_locate? hpath
    obtain ⟨f, hf, heq⟩ := hmem
    rcases List.mem_cons.1 hf with rfl | hf
    · obtain rfl := hcanonical.eq_of_beq hfile heq
      exact .single (leads_of_load hload hcalls)
    · -- The frame below calls this one's file, since what it calls is reached from a clean file.
      have hbelow : ∃ f ∈ caller.frame :: callers.map Caller.frame, f.file == file := ⟨f, hf, heq⟩
      have hcallsClean : r.CallsClean folders known d :=
        fun _ hcalls ↦ hclean.of_transGen (ih hbelow hcalls)
      have hcall := (htracks hcallsClean).calls hreference hpath
      exact .tail (ih hbelow hcall) (leads_of_load hload hcalls)

theorem exists_frame_of_labelsFrom? {p : Progress σ} {file : Path} {labels : List String}
    (h : p.labelsFrom? file = some labels) :
    ∃ f ∈ p.current :: p.callers.map Caller.frame, f.file == file := by
  have hexpands : p.expands file = true := by
    by_contra hnot
    simp [Progress.labelsFrom?, hnot] at h
  simpa [Progress.expands, Progress.frames, or_comm] using hexpands

/-! ## Moves -/

theorem Refines.proceed {root : Document} {p : Progress σ} {id : String} {queue : List String}
    (h : r.Refines folders known root p) (hqueue : p.current.queue = id :: queue) {o : Outcome}
    {s : Session σ} (hquiet : Quiet folders s) (hremembers : r.Remembers folders known s.context)
    (hstage : ∀ d, r.Expands folders known root p.current p.callers d →
      r.CallsClean folders known d → r.Stage folders d p.current.outcome (id :: queue) →
      r.Stage folders d o queue) :
    r.Refines folders known root (p.proceed queue o s) := by
  obtain ⟨d, hexpands, htracks⟩ := h.frames
  rw [hqueue] at htracks
  exact ⟨hquiet, hremembers, d, hexpands.of_file_eq rfl,
    fun hclean ↦ hstage d hexpands hclean (htracks hclean)⟩

/-- What is remembered of a called file is what the plain recursion puts in place of the call. -/
theorem inlineCall_of_yields {o : Outcome} {id : String} {reference : Reference} {path : Path}
    {e : Expansion} (hreference : o.document.reference? id = some reference)
    (hpath : r.locate? folders reference o.document.path = some path)
    (h : r.Yields folders path e) :
    ∃ depth,
      r.inlineCall folders (r.inline? folders depth) o id = some (o.apply id reference e) := by
  cases e with
  | failed gap =>
    obtain ⟨e, hload, rfl⟩ := h
    exact ⟨0, by simp [inlineCall, hreference, hpath, hload, Outcome.apply]⟩
  | expanded definition =>
    obtain ⟨d, depth, result, hload, hresult, rfl⟩ := h
    exact ⟨depth, by simp [inlineCall, hreference, hpath, hload, hresult, Outcome.apply]⟩

theorem Remembers.remember {c : Context} (h : r.Remembers folders known c) {file : Path}
    (hfile : r.files.IsCanonical file) {e : Expansion}
    (he : r.Clean folders known file → r.Yields folders file e) :
    r.Remembers folders known (c.remember file e) := by
  intro file' e' hfile' hknown hclean
  rw [Context.expansion?_remember] at hknown
  split at hknown
  · rename_i heq
    obtain rfl := hfile.eq_of_beq hfile' heq
    obtain rfl := Option.some.inj hknown
    exact he hclean
  · exact h file' e' hfile' hknown hclean

/-- Every move keeps the state in step with the plain recursion. -/
theorem Refines.move (hquiet : r.operator.isInteractive = false) {root : Document}
    (hroot : root ∈ known) {p q : Progress σ} (h : r.Move p q)
    (hp : r.Refines folders known root p) : r.Refines folders known root q := by
  cases h with
  | @leave caller callers hqueue hcallers =>
    obtain ⟨inner, hexpands, htracks⟩ := hp.frames
    rw [hcallers] at hexpands
    cases hexpands with
    | @called _ _ _ d _ hcaller hwaits hreference hpath hload =>
      have hyields (hclean : r.Clean folders known p.current.file) : r.Yields folders p.current.file
          (.expanded (p.current.outcome.definition p.current.file)) := by
        have hstage := htracks (.of_load hload hclean)
        rw [hqueue] at hstage
        obtain ⟨depth, hinline⟩ := hstage.inline
        exact ⟨inner, depth, p.current.outcome, hload, hinline, rfl⟩
      refine ⟨⟨hp.quiet.folders, hp.quiet.decisions⟩,
        hp.remembers.remember (isCanonical_of_locate? hpath) hyields, d, hcaller.of_file_eq rfl,
        fun hclean ↦ ?_⟩
      have hcalls := (hwaits hclean).calls hreference hpath
      obtain ⟨depth, hcall⟩ :=
        inlineCall_of_yields hreference hpath (hyields (hclean _ hcalls))
      exact (hwaits hclean).next hcall
  | @skip id queue hqueue hreference =>
    apply hp.proceed hqueue hp.quiet hp.remembers
    intro d _ _ hstage
    have hcall : r.inlineCall folders (r.inline? folders 0) p.current.outcome id =
        some p.current.outcome := by
      simp [inlineCall, hreference]
    exact hstage.next hcall
  | @unresolved id queue reference gap s hqueue hreference hlookup =>
    obtain ⟨hnone, rfl, rfl⟩ := locate?_of_unresolved hquiet hp.quiet hlookup
    apply hp.proceed hqueue hp.quiet hp.remembers
    intro d _ _ hstage
    have hcall : r.inlineCall folders (r.inline? folders 0) p.current.outcome id =
        some (p.current.outcome.mark id reference .missing) := by
      simp [inlineCall, hreference, hnone]
    exact hstage.next hcall
  | @cyclic id queue reference path s labels hqueue hreference hlookup hlabels =>
    obtain ⟨hpath, rfl⟩ := locate?_of_located hquiet hp.quiet hlookup
    apply hp.proceed hqueue hp.quiet hp.remembers
    intro d hexpands hclean hstage
    -- A clean document does not lead back to a file that is being expanded.
    have hcalls := hstage.calls hreference hpath
    have hcycle := hexpands.transGen hroot hcalls.isCanonical (hclean path hcalls)
      (exists_frame_of_labelsFrom? hlabels) hcalls
    exact absurd hcycle (hclean path hcalls).not_transGen
  | @reuse id queue reference path s expansion hqueue hreference hlookup hlabels hknown =>
    obtain ⟨hpath, rfl⟩ := locate?_of_located hquiet hp.quiet hlookup
    apply hp.proceed hqueue hp.quiet hp.remembers
    intro d _ hclean hstage
    have hcalls := hstage.calls hreference hpath
    have hyields := hp.remembers path expansion hcalls.isCanonical hknown (hclean path hcalls)
    obtain ⟨depth, hcall⟩ := inlineCall_of_yields hreference hpath hyields
    exact hstage.next hcall
  | @fail id queue reference path s e hqueue hreference hlookup hlabels hknown hload =>
    obtain ⟨hpath, rfl⟩ := locate?_of_located hquiet hp.quiet hlookup
    have hyields : r.Yields folders path (.failed (.malformed e.message)) := ⟨e, hload, rfl⟩
    have hremembers := hp.remembers.remember (isCanonical_of_locate? hpath) fun _ ↦ hyields
    refine hp.proceed hqueue ⟨hp.quiet.folders, hp.quiet.decisions⟩ hremembers ?_
    intro d _ _ hstage
    obtain ⟨depth, hcall⟩ := inlineCall_of_yields hreference hpath hyields
    exact hstage.next hcall
  | @enter id queue reference path s d hqueue hreference hlookup hlabels hknown hload =>
    obtain ⟨hpath, rfl⟩ := locate?_of_located hquiet hp.quiet hlookup
    obtain ⟨below, hexpands, htracks⟩ := hp.frames
    rw [hqueue] at htracks
    exact ⟨⟨hp.quiet.folders, hp.quiet.decisions⟩, hp.remembers, d,
      .called (hexpands.of_file_eq rfl) htracks hreference hpath hload, fun _ ↦ stage_start d⟩

/-- A whole run keeps in step with the plain recursion. -/
theorem refines_run (hquiet : r.operator.isInteractive = false) {root : Document}
    (hroot : root ∈ known) {s : Session σ} (hs : Quiet folders s)
    (hremembers : r.Remembers folders known s.context) :
    r.Refines folders known root (r.run (.start root (r.files.canonical root.path) s)) :=
  run_keeps (fun _ _ ↦ Refines.move hquiet hroot)
    ⟨hs, hremembers, root, .root rfl, fun _ ↦ stage_start root⟩

/-! ## Histories -/

theorem leads_mono {known' : List Document} (hsub : known ⊆ known') :
    r.Leads folders known ≤ r.Leads folders known' := by
  rintro file path ⟨d, hfile | ⟨hmem, hpath⟩, hcalls⟩
  · exact ⟨d, .inl hfile, hcalls⟩
  · exact ⟨d, .inr ⟨hsub hmem, hpath⟩, hcalls⟩

theorem Clean.anti {known' : List Document} (hsub : known ⊆ known') {file : Path}
    (h : r.Clean folders known' file) : r.Clean folders known file :=
  fun path hchain hcycle ↦ h path (ReflTransGen.mono (leads_mono hsub) _ _ hchain)
    (TransGen.mono (leads_mono hsub) _ _ hcycle)

theorem Remembers.mono {known' : List Document} (hsub : known ⊆ known') {c : Context}
    (h : r.Remembers folders known c) : r.Remembers folders known' c :=
  fun file e hfile hknown hclean ↦ h file e hfile hknown (hclean.anti hsub)

theorem History.quiet_remembers (hquiet : r.operator.isInteractive = false)
    {earlier : List Document} {s : Session σ} (h : History (· = r) folders earlier s) :
    Quiet (Context.start folders).searchFolders s ∧
      r.Remembers (Context.start folders).searchFolders earlier s.context := by
  induction h with
  | start operator =>
    have hsame := Context.sameRecords_start folders
    constructor
    · exact ⟨rfl, hsame.decisions⟩
    · intro file e _ hknown
      simp [Context.expansion?, hsame.expansions] at hknown
  | resolve _ hr d ih =>
    subst hr
    have hrun := refines_run hquiet (List.mem_cons_self (a := d)) ih.1
      (ih.2.mono (List.subset_cons_self d _))
    exact ⟨hrun.quiet, hrun.remembers⟩

/-- To read a document in place of its file makes no difference to a chain that does not lead back
to the file. -/
theorem Acyclic.callsClean_cons {d : Document} (h : r.Acyclic folders known d) :
    r.CallsClean folders (d :: known) d := by
  intro first hfirst
  have hstep {file path : Path} (hfile : ReflTransGen (r.Leads folders known) first file)
      (hleads : r.Leads folders (d :: known) file path) : r.Leads folders known file path := by
    obtain ⟨e, hload | ⟨hmem, hpath⟩, hcalls⟩ := hleads
    · exact ⟨e, .inl hload, hcalls⟩
    · rcases List.mem_cons.1 hmem with rfl | hmem
      · exact absurd hpath (h.no_return first file hfirst hfile)
      · exact ⟨e, .inr ⟨hmem, hpath⟩, hcalls⟩
  have hchain {path : Path} (hpath : ReflTransGen (r.Leads folders (d :: known)) first path) :
      ReflTransGen (r.Leads folders known) first path := by
    induction hpath with
    | refl => exact .refl
    | tail _ hleads ih => exact ih.tail (hstep ih hleads)
  have hcycle {file path : Path} (hfile : ReflTransGen (r.Leads folders known) first file)
      (hpath : TransGen (r.Leads folders (d :: known)) file path) :
      TransGen (r.Leads folders known) file path := by
    induction hpath with
    | single hleads => exact .single (hstep hfile hleads)
    | tail _ hleads ih => exact ih.tail (hstep (hfile.trans ih.to_reflTransGen) hleads)
  intro path hpath hback
  exact h.no_cycle first hfirst path (hchain hpath) (hcycle (hchain hpath) hback)

/-- Resolving a document after any others gives what the plain recursion gives: the document, the
issues and the macros used, each in the same order. -/
theorem inline?_eq_resolve (hquiet : r.operator.isInteractive = false) {earlier : List Document}
    {s : Session σ} (hs : History (· = r) folders earlier s) {d : Document}
    (hd : r.Acyclic (Context.start folders).searchFolders earlier d) :
    r.inline? (Context.start folders).searchFolders (r.files.fileCount + 1) d =
      some (r.resolve d s).1 := by
  obtain ⟨hquiet', hremembers⟩ := hs.quiet_remembers hquiet
  have hrun := refines_run hquiet (List.mem_cons_self (a := d)) hquiet'
    (hremembers.mono (List.subset_cons_self d earlier))
  obtain ⟨root, hexpands, htracks⟩ := hrun.frames
  obtain ⟨hqueue, hcallers⟩ := run_done (r := r) (.start d (r.files.canonical d.path) s)
  rw [hcallers] at hexpands
  cases hexpands with
  | root =>
    have hstage := htracks hd.callsClean_cons
    rw [hqueue] at hstage
    obtain ⟨depth, hinline⟩ := hstage.inline
    obtain ⟨o, ho⟩ := Option.isSome_iff_exists.1 hd.no_cycle.isSome_inline?
    rw [ho, inline?_unique ho hinline]
    rfl

/-! ## A document that is not what is in its file -/

theorem clean_of_rank {rank : Path → Nat}
    (h : ∀ file path, r.Leads folders known file path → rank path < rank file) (file : Path) :
    r.Clean folders known file := by
  have hrank {file path : Path} (hchain : TransGen (r.Leads folders known) file path) :
      rank path < rank file := by
    induction hchain with
    | single hleads => exact h _ _ hleads
    | tail _ hleads ih => exact Nat.lt_trans (h _ _ hleads) ih
  exact fun path _ hcycle ↦ Nat.lt_irrefl _ (hrank hcycle)

theorem not_calls_of_pending_eq_nil {d : Document} (hd : d.pending = []) {path : Path} :
    ¬r.Calls folders d path := by
  rintro ⟨_, _, _, _, ⟨_, before, hids, -⟩, -⟩
  simp [hd] at hids

theorem Calls.of_pending_eq {d : Document} {id : String} (hd : d.pending.map Node.id = [id])
    {path : Path} (h : r.Calls folders d path) :
    ∃ reference, d.reference? id = some reference ∧
      r.locate? folders reference d.path = some path := by
  obtain ⟨o, id', rest, reference, ⟨depth, before, hids, hbefore⟩, hreference, hpath⟩ := h
  rw [hd] at hids
  rcases List.singleton_eq_append_iff.1 hids with ⟨rfl, hrest⟩ | ⟨-, hrest⟩
  · obtain ⟨rfl, -⟩ := List.cons.inj hrest
    obtain rfl := Option.some.inj hbefore
    exact ⟨reference, hreference, hpath⟩
  · cases hrest

/-- A file system of two files. -/
def pairFiles : FileSystem where
  root := .folder [("A.yxmc", .file ⟨#[]⟩), ("B.yxmc", .file ⟨#[]⟩)]
  workingFolder := []
  ordered := Entry.ordered_folder_pair (by decide +kernel) _ _
  named := FileSystem.isName_of_mem_nil

/-- A document of one node. -/
def singleton (name path : String) (n : Node) : Document :=
  ⟨name, ⟨path⟩, none, [n], []⟩

/-- The file `B` calls the file `A`, which calls none. -/
def pairResolver : Resolver Unit where
  files := pairFiles
  load path :=
    if path.text = "/A.yxmc" then .ok (singleton "A" "/A.yxmc" (.plain "1" .formula "f"))
    else if path.text = "/B.yxmc" then .ok (singleton "B" "/B.yxmc" (.call "1" (.named "A")))
    else .error (.unsupported path)
  options := ⟨.everywhere, 3⟩
  operator := .absent

/-- A document that calls `B`. -/
def pairCaller : Document := singleton "D" "/D.yxmd" (.call "1" (.named "B"))

/-- A document that calls `B` as well, and claims to be in the file `A`. -/
def pairImpostor : Document := singleton "A" "/A.yxmc" (.call "1" (.named "B"))

theorem calls_singleton {name text : String} {reference : Reference} {path : Path}
    (h : r.Calls folders (singleton name text (.call "1" reference)) path) :
    r.locate? folders reference ⟨text⟩ = some path := by
  have hpending : (singleton name text (.call "1" reference)).pending.map Node.id = ["1"] := rfl
  obtain ⟨reference', hreference, hpath⟩ := h.of_pending_eq hpending
  cases hreference
  exact hpath

/-- How far the files of the pair are from one that calls nothing. -/
def pairRank (path : Path) : Nat :=
  if path.text = "/A.yxmc" then 0 else if path.text = "/B.yxmc" then 1 else 2

theorem pairRank_caller {path : Path} (h : pairFiles.canonical pairCaller.path == path) :
    pairRank path = 2 := by
  unfold pairRank
  split
  · rename_i htext
    obtain rfl : path = ⟨"/A.yxmc"⟩ := congrArg Path.mk htext
    revert h
    decide +kernel
  · split
    · rename_i htext
      obtain rfl : path = ⟨"/B.yxmc"⟩ := congrArg Path.mk htext
      revert h
      decide +kernel
    · rfl

theorem pairRank_of_calls {path : Path} (h : pairResolver.Calls [] pairCaller path) :
    pairRank path = 1 := by
  have htext : (pairResolver.locate? [] (.named "B") ⟨"/D.yxmd"⟩).map Path.text =
      some "/B.yxmc" := by
    decide +kernel
  rw [calls_singleton h] at htext
  obtain rfl : path = ⟨"/B.yxmc"⟩ := congrArg Path.mk (Option.some.inj htext)
  rfl

theorem pairRank_lt (hknown : ∀ d ∈ known, d = pairCaller) (file path : Path)
    (h : pairResolver.Leads [] known file path) : pairRank path < pairRank file := by
  obtain ⟨d, hload | ⟨hmem, hfile⟩, hcalls⟩ := h
  · dsimp only [pairResolver] at hload
    split at hload
    · cases hload
      exact absurd hcalls (not_calls_of_pending_eq_nil rfl)
    · split at hload
      · rename_i htext
        cases hload
        have hnext : (pairResolver.locate? [] (.named "A") ⟨"/B.yxmc"⟩).map Path.text =
            some "/A.yxmc" := by
          decide +kernel
        rw [calls_singleton hcalls] at hnext
        have hrank : pairRank path = 0 := if_pos (Option.some.inj hnext)
        obtain rfl : file = ⟨"/B.yxmc"⟩ := congrArg Path.mk htext
        rw [hrank]
        decide
      · cases hload
  · obtain rfl := hknown d hmem
    rw [pairRank_of_calls hcalls, pairRank_caller hfile]
    decide

theorem acyclic_pairCaller (hknown : ∀ d ∈ known, d = pairCaller) :
    pairResolver.Acyclic [] known pairCaller := by
  refine ⟨?_, fun first _ ↦ clean_of_rank (pairRank_lt hknown) first⟩
  intro first path hfirst hchain hreturn
  have hle : pairRank path ≤ pairRank first := by
    clear hreturn
    induction hchain with
    | refl => exact Nat.le_refl _
    | tail _ hleads ih =>
      exact Nat.le_trans (Nat.le_of_lt (pairRank_lt hknown _ _ hleads)) ih
  rw [pairRank_caller hreturn, pairRank_of_calls hfirst] at hle
  omega

/-- The impostor makes the call of `A` in `B` look as if it led back, and it stays marked so. -/
theorem inline?_ne_resolve_impostor :
    pairResolver.operator.isInteractive = false ∧
      History (· = pairResolver) [] [pairImpostor]
        (pairResolver.resolve pairImpostor ⟨.start [], ()⟩).2 ∧
      pairResolver.Acyclic [] [] pairCaller ∧
      (pairResolver.inline? [] (pairResolver.files.fileCount + 1) pairCaller).map
        Outcome.isComplete = some true ∧
      (pairResolver.resolve pairCaller
        (pairResolver.resolve pairImpostor ⟨.start [], ()⟩).2).1.issues.map Issue.gap =
        [.cyclic ["A", "B", "A"]] := by
  have hfirst : pairResolver.step (pairResolver.advance 8 (.start pairImpostor
      (pairResolver.files.canonical pairImpostor.path) ⟨.start [], ()⟩)) = none :=
    Option.isNone_iff_eq_none.1 (by decide +kernel)
  refine ⟨rfl, .resolve (.start ()) (by rfl) pairImpostor, acyclic_pairCaller (by simp),
    by decide +kernel, ?_⟩
  rw [resolve_eq_of_advance rfl hfirst]
  have hsecond : pairResolver.step (pairResolver.advance 8 (.start pairCaller
      (pairResolver.files.canonical pairCaller.path)
      (pairResolver.advance 8 (.start pairImpostor
        (pairResolver.files.canonical pairImpostor.path) ⟨.start [], ()⟩)).session)) = none :=
    Option.isNone_iff_eq_none.1 (by decide +kernel)
  rw [resolve_eq_of_advance rfl hsecond]
  decide +kernel

theorem inline?_eq_resolve_again :
    pairResolver.operator.isInteractive = false ∧
      History (· = pairResolver) [] [pairCaller]
        (pairResolver.resolve pairCaller ⟨.start [], ()⟩).2 ∧
      pairResolver.Acyclic [] [pairCaller] pairCaller ∧
      pairResolver.inline? [] (pairResolver.files.fileCount + 1) pairCaller =
        some (pairResolver.resolve pairCaller
          (pairResolver.resolve pairCaller ⟨.start [], ()⟩).2).1 := by
  have hs : History (· = pairResolver) [] [pairCaller]
      (pairResolver.resolve pairCaller ⟨.start [], ()⟩).2 :=
    .resolve (.start ()) (by rfl) pairCaller
  have hd : pairResolver.Acyclic [] [pairCaller] pairCaller := acyclic_pairCaller (by simp)
  exact ⟨rfl, hs, hd, inline?_eq_resolve rfl hs hd⟩

end Resolver

end Provenance
