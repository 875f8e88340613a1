import Provenance.Proofs.Expansion.Refinement

/-!
# Files are opened once

Whoever is asked and whatever the files refer to, a run comes to an end, the files of its frames are
different, and no macro file is opened twice, neither in one run nor in several that share a memory.

A file is opened only if it is neither being expanded nor remembered. From then on it is one of the
two, since a frame that is left is remembered under the path that its file was opened under
(`Progress.OpensOnce`).
-/

namespace Provenance

theorem Session.expansion?_opening_remember {σ : Type} (s : Session σ) (path file : Path)
    (e : Expansion) : ((s.opening path).remember path e).context.expansion? file =
      if path == file then some e else s.context.expansion? file :=
  Context.expansion?_remember _ _ _ _

/-- A path that differs from some different paths is put behind them. -/
theorem Path.pairwise_concat {paths : List Path} {path : Path}
    (h : paths.Pairwise (fun a b ↦ ¬a == b)) (hnew : ∀ other ∈ paths, ¬other == path) :
    (paths ++ [path]).Pairwise (fun a b ↦ ¬a == b) := by
  rw [List.pairwise_append]
  refine ⟨h, List.pairwise_singleton _ _, fun other hother last hlast ↦ ?_⟩
  rw [List.mem_singleton.1 hlast]
  exact hnew other hother

namespace Progress

variable {σ : Type}

/-- The files that are being expanded, that of the document first. -/
def files (p : Progress σ) : List Path :=
  p.frames.map Frame.file

theorem expands_iff {p : Progress σ} {path : Path} :
    p.expands path ↔ ∃ file ∈ p.files, file == path := by
  rw [expands, List.any_eq_true, files]
  constructor
  · rintro ⟨frame, hframe, heq⟩
    exact ⟨frame.file, List.mem_map_of_mem hframe, heq⟩
  · rintro ⟨file, hfile, heq⟩
    obtain ⟨frame, hframe, rfl⟩ := List.mem_map.1 hfile
    exact ⟨frame, hframe, heq⟩

@[simp]
theorem files_proceed (p : Progress σ) (queue : List String) (o : Outcome) (s : Session σ) :
    (p.proceed queue o s).files = p.files := by
  simp [files, frames, proceed]

@[simp]
theorem files_enter (p : Progress σ) (id : String) (reference : Reference) (queue : List String)
    (path : Path) (d : Document) (s : Session σ) :
    (p.enter id reference queue path d s).files = p.files ++ [path] := by
  simp [files, frames, enter, Frame.start]

theorem files_leave {p : Progress σ} {caller : Caller} {callers : List Caller}
    (hcallers : p.callers = caller :: callers) :
    p.files = (p.leave caller callers).files ++ [p.current.file] := by
  simp [files, frames, leave, hcallers]

theorem expansion?_leave (p : Progress σ) (caller : Caller) (callers : List Caller) (path : Path) :
    (p.leave caller callers).session.context.expansion? path =
      if p.current.file == path then
        some (.expanded (p.current.outcome.definition p.current.file))
      else p.session.context.expansion? path :=
  Context.expansion?_remember _ _ _ _

theorem files_ne_nil (p : Progress σ) : p.files ≠ [] := by
  simp [files, frames]

/-- A file that is not expanded differs from those that are. -/
theorem pairwise_files_concat {p : Progress σ} {path : Path}
    (hfiles : p.files.Pairwise (fun a b ↦ ¬a == b)) (hexpands : p.expands path = false) :
    (p.files ++ [path]).Pairwise (fun a b ↦ ¬a == b) :=
  Path.pairwise_concat hfiles fun file hfile heq ↦
    Bool.eq_false_iff.1 hexpands (expands_iff.2 ⟨file, hfile, heq⟩)

/-- No file is expanded or was opened twice, and every file that was opened is remembered, unless it
is that of a macro at hand. -/
structure OpensOnce (p : Progress σ) : Prop where
  files : p.files.Pairwise (fun a b ↦ ¬a == b)
  opened : p.session.context.opened.Pairwise (fun a b ↦ ¬a == b)
  known : ∀ file ∈ p.session.context.opened,
    (p.session.context.expansion? file).isSome ∨ ∃ path ∈ p.files.tail, path == file

/-- A file that is neither expanded nor remembered was not opened. -/
theorem OpensOnce.not_opened {p : Progress σ} (hp : p.OpensOnce) {path : Path}
    (hexpands : p.expands path = false) (hknown : p.session.context.expansion? path = none) :
    ∀ file ∈ p.session.context.opened, ¬path == file := by
  intro file hfile heq
  rcases hp.known file hfile with hsome | ⟨other, hother, hbeq⟩
  · rw [← Context.expansion?_eq_of_beq heq, hknown] at hsome
    cases hsome
  · have hpath : p.expands path :=
      expands_iff.2 ⟨other, List.mem_of_mem_tail hother, BEq.trans hbeq (BEq.symm heq)⟩
    rw [hexpands] at hpath
    cases hpath

/-- Who is asked, and what is said, is of no account. -/
theorem OpensOnce.of_session {p : Progress σ} (hp : p.OpensOnce) {s : Session σ}
    (hopened : s.context.opened = p.session.context.opened)
    (hexpansion : ∀ path, s.context.expansion? path = p.session.context.expansion? path) :
    ({ p with session := s } : Progress σ).OpensOnce where
  files := hp.files
  opened := hopened ▸ hp.opened
  known file hfile := (hp.known file (hopened ▸ hfile)).imp_left fun h ↦ (hexpansion file).symm ▸ h

theorem OpensOnce.proceed {p : Progress σ} (hp : p.OpensOnce) (queue : List String)
    (o : Outcome) : (p.proceed queue o p.session).OpensOnce where
  files := by simpa using hp.files
  opened := hp.opened
  known file hfile := by
    rw [files_proceed]
    exact hp.known file hfile

/-- A file is remembered when its frame is left. -/
theorem OpensOnce.leave {p : Progress σ} (hp : p.OpensOnce) {caller : Caller}
    {callers : List Caller} (hcallers : p.callers = caller :: callers) :
    (p.leave caller callers).OpensOnce := by
  have hfiles := files_leave hcallers
  have htail : p.files.tail = (p.leave caller callers).files.tail ++ [p.current.file] := by
    rw [hfiles, List.tail_append_of_ne_nil (files_ne_nil _)]
  refine ⟨(List.pairwise_append.1 (hfiles ▸ hp.files)).1, hp.opened, fun file hfile ↦ ?_⟩
  rw [p.expansion?_leave]
  by_cases heq : p.current.file == file
  · simp [heq]
  · rw [if_neg heq]
    refine (hp.known file hfile).imp_right fun ⟨path, hpath, hbeq⟩ ↦ ⟨path, ?_, hbeq⟩
    rw [htail, List.mem_append, List.mem_singleton] at hpath
    exact hpath.resolve_right fun h ↦ heq (h ▸ hbeq)

section

variable {p : Progress σ} (hp : p.OpensOnce) {path : Path} (hexpands : p.expands path = false)
  (hknown : p.session.context.expansion? path = none)

include hp hexpands hknown

theorem OpensOnce.pairwise_opening :
    (path :: p.session.context.opened).Pairwise (fun a b ↦ ¬a == b) :=
  List.pairwise_cons.2 ⟨hp.not_opened hexpands hknown, hp.opened⟩

/-- A file that cannot be loaded is remembered at once. -/
theorem OpensOnce.fail {queue : List String} {o : Outcome} {e : Expansion} :
    (p.proceed queue o ((p.session.opening path).remember path e)).OpensOnce := by
  refine ⟨by simpa using hp.files, hp.pairwise_opening hexpands hknown, fun file hfile ↦ ?_⟩
  rw [p.files_proceed]
  rcases List.mem_cons.1 hfile with rfl | hold
  · exact .inl (by simp [Progress.proceed, Session.expansion?_opening_remember])
  · refine (hp.known file hold).imp_left fun h ↦ ?_
    rw [Progress.proceed, Session.expansion?_opening_remember]
    split
    · rfl
    · exact h

/-- A file that can be loaded is expanded from then on. -/
theorem OpensOnce.enter {id : String} {reference : Reference} {queue : List String}
    {d : Document} :
    (p.enter id reference queue path d (p.session.opening path)).OpensOnce := by
  refine ⟨?_, hp.pairwise_opening hexpands hknown, fun file hfile ↦ ?_⟩
  · rw [p.files_enter]
    exact pairwise_files_concat hp.files hexpands
  · rw [p.files_enter, List.tail_append_of_ne_nil p.files_ne_nil]
    rcases List.mem_cons.1 hfile with rfl | hold
    · exact .inr ⟨file, by simp, BEq.rfl⟩
    · exact (hp.known file hold).imp_right
        fun ⟨other, hother, heq⟩ ↦ ⟨other, List.mem_append_left _ hother, heq⟩

end

end Progress

namespace Resolver

variable {σ : Type} {r : Resolver σ}

/-- Every move keeps the files apart. -/
theorem opensOnce_move {p q : Progress σ} (h : r.Move p q) (hp : p.OpensOnce) : q.OpensOnce := by
  have hasked {reference : Reference} {document : Path} {decision : Decision} {s : Session σ}
      (hlookup : r.lookup reference document p.session = (decision, s)) :
      ({ p with session := s } : Progress σ).OpensOnce :=
    hp.of_session (opened_lookup hlookup) (expansion?_lookup hlookup)
  cases h with
  | leave _ hcallers => exact hp.leave hcallers
  | skip => exact hp.proceed _ _
  | unresolved _ _ hlookup => exact (hasked hlookup).proceed _ _
  | cyclic _ _ hlookup => exact (hasked hlookup).proceed _ _
  | reuse _ _ hlookup => exact (hasked hlookup).proceed _ _
  | fail _ _ hlookup hlabels hknown =>
    exact (hasked hlookup).fail (Progress.labelsFrom?_eq_none_iff.1 hlabels) hknown
  | enter _ _ hlookup hlabels hknown =>
    exact (hasked hlookup).enter (Progress.labelsFrom?_eq_none_iff.1 hlabels) hknown

/-- What every move keeps holds after any number of steps. -/
theorem advance_keeps {kept : Progress σ → Prop} (hmove : ∀ p q, r.Move p q → kept p → kept q)
    (count : Nat) {p : Progress σ} (h : kept p) : kept (r.advance count p) := by
  induction count generalizing p with
  | zero => exact h
  | succ count ih =>
    unfold advance
    cases hstep : r.step p with
    | none => exact h
    | some q => exact ih (hmove p q (move_of_step hstep) h)

/-- After finitely many steps nothing is left to do. -/
theorem exists_step_advance_eq_none (p : Progress σ) :
    ∃ count, r.step (r.advance count p) = none := by
  induction p using run_induct (r := r) with
  | done p hstep => exact ⟨0, hstep⟩
  | step p q hstep ih =>
    obtain ⟨count, hdone⟩ := ih
    exact ⟨count + 1, by simpa [advance, hstep] using hdone⟩

/-- A run begins with one file and with a memory in which every file that was opened is known. -/
theorem opensOnce_start {s : Session σ}
    (hopened : s.context.opened.Pairwise (fun a b ↦ ¬a == b))
    (hknown : ∀ file ∈ s.context.opened, (s.context.expansion? file).isSome) (d : Document)
    (file : Path) : (Progress.start d file s).OpensOnce :=
  ⟨List.pairwise_singleton _ _, hopened, fun file hfile ↦ .inl (hknown file hfile)⟩

/-- Between two runs every file that was opened is remembered, whatever resolvers were at work. -/
theorem History.opened {folders : List Path} {earlier : List Document} {s : Session σ}
    (h : History (fun _ ↦ True) folders earlier s) :
    s.context.opened.Pairwise (fun a b ↦ ¬a == b) ∧
      ∀ file ∈ s.context.opened, (s.context.expansion? file).isSome := by
  induction h with
  | start operator => simp [(Context.sameRecords_start folders).opened]
  | @resolve _ s r _ _ d ih =>
    have hrun : (r.run (.start d (r.files.canonical d.path) s)).OpensOnce :=
      run_keeps (fun _ _ ↦ opensOnce_move) (opensOnce_start ih.1 ih.2 d _)
    refine ⟨hrun.opened, fun file hfile ↦ (hrun.known file hfile).resolve_right ?_⟩
    have hcallers := (run_done (r := r) (.start d (r.files.canonical d.path) s)).2
    simp [Progress.files, Progress.frames, hcallers]

/-- The beginning of the run that replaces the calls of a document. -/
def begin (r : Resolver σ) (d : Document) (s : Session σ) : Progress σ :=
  .start d (r.files.canonical d.path) s

/-- Replacing the calls of a document ends after finitely many steps; after any number of them the
files that are being expanded are different, that of the document included, and no file has been
opened twice since the memory was new. -/
theorem resolve_opens_once {folders : List Path} {earlier : List Document} {s : Session σ}
    (hs : History (fun _ ↦ True) folders earlier s) (r : Resolver σ) (d : Document) :
    (∃ count, r.step (r.advance count (r.begin d s)) = none ∧
        r.resolve d s = ((r.advance count (r.begin d s)).current.outcome,
          (r.advance count (r.begin d s)).session)) ∧
      ∀ count, (r.advance count (r.begin d s)).files.Pairwise (fun a b ↦ ¬a == b) ∧
        (r.advance count (r.begin d s)).session.context.opened.Pairwise (fun a b ↦ ¬a == b) := by
  constructor
  · obtain ⟨count, hdone⟩ := exists_step_advance_eq_none (r := r) (r.begin d s)
    exact ⟨count, hdone, resolve_eq_of_advance rfl hdone⟩
  · intro count
    have hadvance := advance_keeps (r := r) (fun _ _ ↦ opensOnce_move) count
      (opensOnce_start hs.opened.1 hs.opened.2 d (r.files.canonical d.path))
    exact ⟨hadvance.files, hadvance.opened⟩

/-- The files `A` and `B` call each other. -/
def ringResolver : Resolver Unit where
  files := pairFiles
  load path :=
    if path.text = "/A.yxmc" then .ok (singleton "A" "/A.yxmc" (.call "1" (.named "B")))
    else if path.text = "/B.yxmc" then .ok (singleton "B" "/B.yxmc" (.call "1" (.named "A")))
    else .error (.unsupported path)
  options := ⟨.everywhere, 3⟩
  operator := .absent

/-- What is left of the memory when a document that calls `B` has been resolved. -/
def ringSession : Session Unit := (ringResolver.resolve pairCaller ⟨.start [], ()⟩).2

theorem resolve_opens_once_ring :
    History (fun _ ↦ True) [] [pairCaller] ringSession ∧
      ((∃ count, ringResolver.step
            (ringResolver.advance count (ringResolver.begin pairCaller ringSession)) = none ∧
          ringResolver.resolve pairCaller ringSession =
            ((ringResolver.advance count
                (ringResolver.begin pairCaller ringSession)).current.outcome,
              (ringResolver.advance count (ringResolver.begin pairCaller ringSession)).session)) ∧
        ∀ count,
          (ringResolver.advance count (ringResolver.begin pairCaller ringSession)).files.Pairwise
              (fun a b ↦ ¬a == b) ∧
            (ringResolver.advance count
              (ringResolver.begin pairCaller ringSession)).session.context.opened.Pairwise
              (fun a b ↦ ¬a == b)) ∧
      ringSession.context.opened.map Path.text = ["/A.yxmc", "/B.yxmc"] := by
  have hs : History (fun _ ↦ True) [] [pairCaller] ringSession :=
    .resolve (.start ()) trivial pairCaller
  have hend : ringResolver.step (ringResolver.advance 8
      (ringResolver.begin pairCaller ⟨.start [], ()⟩)) = none :=
    Option.isNone_iff_eq_none.1 (by decide +kernel)
  refine ⟨hs, resolve_opens_once hs ringResolver pairCaller, ?_⟩
  rw [ringSession, resolve_eq_of_advance rfl hend]
  decide +kernel

end Resolver

end Provenance
