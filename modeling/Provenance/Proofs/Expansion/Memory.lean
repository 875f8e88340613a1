import Provenance.Proofs.Expansion.Once

/-!
# What is remembered stays

What is known of a file is never replaced, whatever memory a run begins with and whoever is asked. A
file is entered when nothing is known of it and it is not expanded already. Until it is left, a call
that leads back to it is cyclic and nothing is remembered of it (`Progress.Untold`). So when it is
left, it is remembered for the first time.
-/

namespace Provenance

namespace Context

/-- Whatever is known of a file in one memory is known in the other. -/
def Extends (c c' : Context) : Prop :=
  ∀ path e, c.expansion? path = some e → c'.expansion? path = some e

theorem Extends.refl (c : Context) : c.Extends c := fun _ _ h ↦ h

theorem Extends.trans {c c' c'' : Context} (h : c.Extends c') (h' : c'.Extends c'') :
    c.Extends c'' :=
  fun path e hknown ↦ h' path e (h path e hknown)

theorem extends_of_expansion?_eq {c c' : Context}
    (h : ∀ path, c'.expansion? path = c.expansion? path) : c.Extends c' :=
  fun path _ hknown ↦ (h path).trans hknown

theorem extends_remember {c : Context} {path : Path} (hnew : c.expansion? path = none)
    (e : Expansion) : c.Extends (c.remember path e) := by
  intro file known hknown
  rw [expansion?_remember]
  split
  · rename_i heq
    rw [← expansion?_eq_of_beq heq, hnew] at hknown
    cases hknown
  · exact hknown

end Context

namespace Progress

variable {σ : Type}

/-- The files that are being expanded are different, and nothing is known of them yet, if they are
those of macros. -/
structure Untold (p : Progress σ) : Prop where
  files : p.files.Pairwise (fun a b ↦ ¬a == b)
  unknown : ∀ file ∈ p.files.tail, p.session.context.expansion? file = none

variable {p : Progress σ}

theorem untold_start (d : Document) (file : Path) (s : Session σ) : (start d file s).Untold :=
  ⟨List.pairwise_singleton _ _, by simp [start, Progress.files, frames]⟩

theorem Untold.of_session (hp : p.Untold) {s : Session σ}
    (hexpansion : ∀ path, s.context.expansion? path = p.session.context.expansion? path) :
    ({ p with session := s } : Progress σ).Untold :=
  ⟨hp.files, fun file hfile ↦ (hexpansion file).trans (hp.unknown file hfile)⟩

theorem Untold.proceed (hp : p.Untold) (queue : List String) (o : Outcome) :
    (p.proceed queue o p.session).Untold := by
  refine ⟨?_, fun file hfile ↦ ?_⟩
  · simpa using hp.files
  · rw [files_proceed] at hfile
    exact hp.unknown file hfile

section

variable (hp : p.Untold) {caller : Caller} {callers : List Caller}
  (hcallers : p.callers = caller :: callers)

include hp hcallers

/-- When a macro is left, nothing is known of its file. -/
theorem Untold.current : p.session.context.expansion? p.current.file = none := by
  apply hp.unknown
  rw [files_leave hcallers, List.tail_append_of_ne_nil (files_ne_nil _)]
  exact List.mem_append_right _ (List.mem_singleton_self _)

theorem Untold.leave : (p.leave caller callers).Untold := by
  have hfiles := files_leave hcallers
  obtain ⟨hdistinct, -, hlast⟩ := List.pairwise_append.1 (hfiles ▸ hp.files)
  refine ⟨hdistinct, fun file hfile ↦ ?_⟩
  have hne : ¬p.current.file == file := fun heq ↦
    hlast file (List.mem_of_mem_tail hfile) _ (List.mem_singleton_self _) (BEq.symm heq)
  have hold : file ∈ p.files.tail := by
    rw [hfiles, List.tail_append_of_ne_nil (files_ne_nil _)]
    exact List.mem_append_left _ hfile
  rw [p.expansion?_leave, if_neg hne]
  exact hp.unknown file hold

theorem Untold.extends_leave :
    p.session.context.Extends (p.leave caller callers).session.context :=
  Context.extends_remember (hp.current hcallers) _

end

section

variable (hp : p.Untold) {path : Path} (hexpands : p.expands path = false)

include hp hexpands

theorem Untold.fail (queue : List String) (o : Outcome) (e : Expansion) :
    (p.proceed queue o ((p.session.opening path).remember path e)).Untold := by
  refine ⟨by simpa using hp.files, fun file hfile ↦ ?_⟩
  rw [files_proceed] at hfile
  have hne : ¬path == file := fun heq ↦ Bool.eq_false_iff.1 hexpands
    (expands_iff.2 ⟨file, List.mem_of_mem_tail hfile, BEq.symm heq⟩)
  rw [Progress.proceed, Session.expansion?_opening_remember, if_neg hne]
  exact hp.unknown file hfile

theorem Untold.enter (hknown : p.session.context.expansion? path = none) (id : String)
    (reference : Reference) (queue : List String) (d : Document) :
    (p.enter id reference queue path d (p.session.opening path)).Untold := by
  refine ⟨?_, fun file hfile ↦ ?_⟩
  · rw [p.files_enter]
    exact pairwise_files_concat hp.files hexpands
  · rw [p.files_enter, List.tail_append_of_ne_nil p.files_ne_nil, List.mem_append,
      List.mem_singleton] at hfile
    rcases hfile with hold | rfl
    · exact hp.unknown file hold
    · exact hknown

end

end Progress

namespace Resolver

variable {σ : Type} {r : Resolver σ}

theorem untold_move {p q : Progress σ} (h : r.Move p q) (hp : p.Untold) : q.Untold := by
  cases h with
  | leave _ hcallers => exact hp.leave hcallers
  | skip => exact hp.proceed _ _
  | unresolved _ _ hlookup => exact (hp.of_session (expansion?_lookup hlookup)).proceed _ _
  | cyclic _ _ hlookup => exact (hp.of_session (expansion?_lookup hlookup)).proceed _ _
  | reuse _ _ hlookup => exact (hp.of_session (expansion?_lookup hlookup)).proceed _ _
  | fail _ _ hlookup hlabels =>
    exact (hp.of_session (expansion?_lookup hlookup)).fail
      (Progress.labelsFrom?_eq_none_iff.1 hlabels) _ _ _
  | enter _ _ hlookup hlabels hknown =>
    exact (hp.of_session (expansion?_lookup hlookup)).enter
      (Progress.labelsFrom?_eq_none_iff.1 hlabels) hknown _ _ _ _

/-- No move replaces what is known. -/
theorem extends_move {p q : Progress σ} (h : r.Move p q) (hp : p.Untold) :
    p.session.context.Extends q.session.context := by
  have hasked {reference : Reference} {document : Path} {decision : Decision} {s : Session σ}
      (hlookup : r.lookup reference document p.session = (decision, s)) :
      p.session.context.Extends s.context :=
    Context.extends_of_expansion?_eq (expansion?_lookup hlookup)
  cases h with
  | leave _ hcallers => exact hp.extends_leave hcallers
  | skip => exact .refl _
  | unresolved _ _ hlookup => exact hasked hlookup
  | cyclic _ _ hlookup => exact hasked hlookup
  | reuse _ _ hlookup => exact hasked hlookup
  | enter _ _ hlookup =>
    have hknown := hasked hlookup
    exact hknown
  | fail _ _ hlookup _ hknown => exact (hasked hlookup).trans (Context.extends_remember hknown _)

/-- What is known of files before a document is resolved is known afterwards. -/
theorem extends_resolve (r : Resolver σ) (d : Document) (s : Session σ) :
    s.context.Extends (r.resolve d s).2.context := by
  let kept (p : Progress σ) : Prop := p.Untold ∧ s.context.Extends p.session.context
  have hmove (p q : Progress σ) (h : r.Move p q) (hp : kept p) : kept q :=
    ⟨untold_move h hp.1, hp.2.trans (extends_move h hp.1)⟩
  have hstart : kept (r.begin d s) := ⟨Progress.untold_start _ _ _, .refl _⟩
  exact (run_keeps hmove hstart).2

end Resolver

end Provenance
