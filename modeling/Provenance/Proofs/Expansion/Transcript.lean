import Provenance.Proofs.Expansion.Once

/-!
# Transcripts

An operator can write down what it is asked and what it says. It says the same, so that a run with a
transcript is the run without it: one is where the other is after any number of steps
(`advance_transcribed`), and both end with the same document and memory (`resolve_transcribed`).
-/

namespace Provenance

/-- A question and the answer to it. -/
structure Exchange where
  request : Request
  answer : Answer

variable {σ : Type}

/-- An operator that writes down what it is asked and what it says. -/
def Operator.transcribed (operator : Operator σ) : Operator (List Exchange × σ) where
  isInteractive := operator.isInteractive
  answer request state :=
    let (answer, after) := operator.answer request state.2
    (answer, state.1 ++ [⟨request, answer⟩], after)

namespace Session

/-- What has been asked and answered. -/
def transcript (s : Session (List Exchange × σ)) : List Exchange := s.operator.1

/-- The same session without its transcript. -/
def bare (s : Session (List Exchange × σ)) : Session σ := ⟨s.context, s.operator.2⟩

@[simp]
theorem context_bare (s : Session (List Exchange × σ)) : s.bare.context = s.context := rfl

@[simp]
theorem bare_opening (s : Session (List Exchange × σ)) (path : Path) :
    (s.opening path).bare = s.bare.opening path := rfl

@[simp]
theorem bare_remember (s : Session (List Exchange × σ)) (path : Path) (e : Expansion) :
    (s.remember path e).bare = s.bare.remember path e := rfl

end Session

namespace Progress

/-- The same state of a run without the transcript. -/
def bare (p : Progress (List Exchange × σ)) : Progress σ :=
  ⟨p.current, p.callers, p.session.bare⟩

variable (p : Progress (List Exchange × σ))

@[simp]
theorem current_bare : p.bare.current = p.current := rfl

@[simp]
theorem callers_bare : p.bare.callers = p.callers := rfl

@[simp]
theorem session_bare : p.bare.session = p.session.bare := rfl

@[simp]
theorem labelsFrom?_bare (file : Path) : p.bare.labelsFrom? file = p.labelsFrom? file := rfl

@[simp]
theorem bare_proceed (queue : List String) (o : Outcome) (s : Session (List Exchange × σ)) :
    (p.proceed queue o s).bare = p.bare.proceed queue o s.bare := rfl

@[simp]
theorem bare_enter (id : String) (reference : Reference) (queue : List String) (path : Path)
    (d : Document) (s : Session (List Exchange × σ)) :
    (p.enter id reference queue path d s).bare = p.bare.enter id reference queue path d s.bare :=
  rfl

@[simp]
theorem bare_leave (caller : Caller) (callers : List Caller) :
    (p.leave caller callers).bare = p.bare.leave caller callers := rfl

end Progress

namespace Resolver

variable (r : Resolver σ)

/-- The same resolver with a transcript. -/
def transcribed : Resolver (List Exchange × σ) where
  files := r.files
  load := r.load
  options := r.options
  operator := r.operator.transcribed

@[simp]
theorem files_transcribed : r.transcribed.files = r.files := rfl

@[simp]
theorem load_transcribed : r.transcribed.load = r.load := rfl

@[simp]
theorem options_transcribed : r.transcribed.options = r.options := rfl

@[simp]
theorem isInteractive_transcribed :
    r.transcribed.operator.isInteractive = r.operator.isInteractive := rfl

@[simp]
theorem search?_transcribed (reference : Reference) (document : Path) (folders : List Path) :
    r.transcribed.search? reference document folders = r.search? reference document folders := rfl

theorem question_transcribed (reference : Reference) (document : Path) (attempt : Nat)
    (s : Session (List Exchange × σ)) :
    Prod.map id Session.bare (r.transcribed.question reference document attempt s) =
      r.question reference document attempt s.bare := rfl

theorem ask_transcribed (reference : Reference) (document : Path) (left attempt : Nat)
    (s : Session (List Exchange × σ)) :
    Prod.map id Session.bare (r.transcribed.ask reference document left attempt s) =
      r.ask reference document left attempt s.bare := by
  induction left generalizing attempt s with
  | zero => rfl
  | succ left ih =>
    unfold ask
    rw [← r.question_transcribed]
    cases r.transcribed.question reference document attempt s with
    | mk answer s' =>
      have hagain := ih (attempt + 1) s'
      cases answer with
      | file path =>
        by_cases hfile : r.files.isFile path
        · simp [hfile]
        · simpa [hfile] using hagain
      | folder path =>
        have hadded := ih (attempt + 1) { s' with context := s'.context.addFolder path }
        by_cases hfolder : r.files.isFolder path
        · cases hfound : r.search? reference document (s'.context.addFolder path).searchFolders with
          | some found => simp [hfolder, hfound, Session.bare]
          | none => simpa [hfolder, hfound, Session.bare] using hadded
        · simpa [hfolder] using hagain
      | skip => rfl
      | skipAll => rfl
      | decline => rfl

theorem lookup_transcribed (reference : Reference) (document : Path)
    (s : Session (List Exchange × σ)) :
    Prod.map id Session.bare (r.transcribed.lookup reference document s) =
      r.lookup reference document s.bare := by
  have hask := r.ask_transcribed reference document r.options.maxAttempts 1 s
  unfold lookup
  cases hfound : r.search? reference document s.context.searchFolders with
  | some found => simp [hfound]
  | none =>
    cases hdecision : s.context.decision? reference with
    | some decision => simp [hfound, hdecision]
    | none =>
      simp only [search?_transcribed, options_transcribed, isInteractive_transcribed, ← hask,
        Session.context_bare, hfound, hdecision]
      exact apply_ite (Prod.map id Session.bare) _ _ _

theorem visit_transcribed (p : Progress (List Exchange × σ)) (callSite : String)
    (queue : List String) :
    (r.transcribed.visit p callSite queue).bare = r.visit p.bare callSite queue := by
  unfold visit
  cases hreference : p.current.outcome.document.reference? callSite with
  | none => simp [hreference]
  | some reference =>
    have hlookup := r.lookup_transcribed reference p.current.outcome.document.path p.session
    cases hasked : r.transcribed.lookup reference p.current.outcome.document.path p.session with
    | mk decision s =>
      rw [hasked, Prod.map_apply] at hlookup
      cases decision with
      | unresolved gap => simp [hreference, hasked, ← hlookup]
      | located path =>
        cases hlabels : p.labelsFrom? path with
        | some labels => simp [hreference, hasked, ← hlookup, hlabels]
        | none =>
          cases hknown : s.context.expansion? path with
          | some e => simp [hreference, hasked, ← hlookup, hlabels, hknown]
          | none =>
            cases hload : r.load path <;>
              simp [hreference, hasked, ← hlookup, hlabels, hknown, hload]

theorem step_transcribed (p : Progress (List Exchange × σ)) :
    (r.transcribed.step p).map Progress.bare = r.step p.bare := by
  unfold step
  cases hqueue : p.current.queue with
  | cons id queue => simp [hqueue, visit_transcribed]
  | nil => cases hcallers : p.callers <;> simp [hqueue, hcallers]

theorem advance_transcribed (count : Nat) (p : Progress (List Exchange × σ)) :
    (r.transcribed.advance count p).bare = r.advance count p.bare := by
  induction count generalizing p with
  | zero => rfl
  | succ count ih =>
    unfold advance
    rw [← r.step_transcribed]
    cases r.transcribed.step p with
    | none => rfl
    | some q => exact ih q

/-- Writing down the questions changes neither the document nor what is remembered. -/
theorem resolve_transcribed (d : Document) (s : Session (List Exchange × σ)) :
    (r.transcribed.resolve d s).1 = (r.resolve d s.bare).1 ∧
      (r.transcribed.resolve d s).2.bare = (r.resolve d s.bare).2 := by
  obtain ⟨count, hend⟩ := exists_step_advance_eq_none (r := r.transcribed)
    (r.transcribed.begin d s)
  have hbare : (r.transcribed.advance count (r.transcribed.begin d s)).bare =
      r.advance count (r.begin d s.bare) := r.advance_transcribed count _
  have hdone : r.step (r.advance count (r.begin d s.bare)) = none := by
    rw [← hbare, ← step_transcribed, hend, Option.map_none]
  rw [resolve_eq_of_advance rfl hend, resolve_eq_of_advance hbare.symm (hbare ▸ hdone)]
  exact ⟨rfl, rfl⟩

end Resolver

end Provenance
