import Provenance.Expansion.Lookup
import Provenance.Expansion.Outcome

/-!
# Resolving calls

Every call in a document is replaced by the content of its macro, in which all calls have been
replaced before. The macros that are being expanded lie on a stack of frames: a call leads into a
new frame, and a frame with no call left is spliced into the one below. A macro's file is opened
once in a run; its expansion is remembered and used again. The files of the frames show when a call
leads back to a file that is still being expanded.

`Resolver.step` does one thing at a time, and `Resolver.Move` lists what it can do (`move_of_step`).
Steps come to an end because each of them opens one of finitely many files or leaves less to do
(`step_decreases`); `Resolver.run` takes them all, and keeps what every move keeps (`run_keeps`).
-/

namespace Provenance

/-- A document in which calls are being replaced. -/
structure Frame where
  outcome : Outcome
  /-- The name under which the document was called. -/
  label : String
  /-- The canonical path of its file. -/
  file : Path
  /-- The identifiers of the calls that have not been looked into yet. -/
  queue : List String

/-- A document in which no call has been looked into. -/
def Frame.start (d : Document) (label : String) (file : Path) : Frame :=
  ⟨.start d, label, file, d.pending.map Node.id⟩

/-- A frame that waits for the macro of one of its calls. -/
structure Caller where
  frame : Frame
  callSite : String
  reference : Reference

namespace Session

variable {σ : Type}

/-- Records that a macro's file is opened. -/
def opening (s : Session σ) (path : Path) : Session σ :=
  { s with context.opened := path :: s.context.opened }

/-- Remembers what came of a macro's file. -/
def remember (s : Session σ) (path : Path) (e : Expansion) : Session σ :=
  { s with context := s.context.remember path e }

end Session

/-- How far the expansion of a document has come: the frame that is worked on, and the frames that
wait, the one below it first. -/
structure Progress (σ : Type) where
  current : Frame
  callers : List Caller
  session : Session σ

namespace Progress

variable {σ : Type}

/-- The beginning of the expansion of a document. -/
def start (d : Document) (file : Path) (s : Session σ) : Progress σ :=
  ⟨.start d d.name file, [], s⟩

/-- The frames from the document to the macro at hand. -/
def frames (p : Progress σ) : List Frame :=
  (p.callers.map Caller.frame).reverse ++ [p.current]

/-- Whether a file is being expanded. -/
def expands (p : Progress σ) (file : Path) : Bool :=
  p.frames.any (fun frame ↦ frame.file == file)

/-- The names on the way from a file that is being expanded to the macro at hand. -/
def labelsFrom? (p : Progress σ) (file : Path) : Option (List String) :=
  if p.expands file then
    some ((p.frames.dropWhile (fun frame ↦ !(frame.file == file))).map Frame.label)
  else none

/-- Goes on in the same frame. -/
def proceed (p : Progress σ) (queue : List String) (o : Outcome) (s : Session σ) : Progress σ :=
  { p with
    current := { p.current with outcome := o, queue := queue }
    session := s }

/-- Goes into the macro of a call. -/
def enter (p : Progress σ) (id : String) (reference : Reference) (queue : List String) (path : Path)
    (d : Document) (s : Session σ) : Progress σ where
  current := .start d reference.name path
  callers := ⟨{ p.current with queue := queue }, id, reference⟩ :: p.callers
  session := s

/-- Goes back to the frame that waits for the macro at hand. -/
def leave (p : Progress σ) (caller : Caller) (callers : List Caller) : Progress σ :=
  let d := p.current.outcome.definition p.current.file
  { current :=
      { caller.frame with
        outcome := caller.frame.outcome.expand caller.callSite caller.reference d }
    callers := callers
    session := p.session.remember p.current.file (.expanded d) }

end Progress

namespace Resolver

variable {σ : Type} (r : Resolver σ)

/-- Looks into the call with an identifier, after which those of `queue` are left. -/
def visit (p : Progress σ) (id : String) (queue : List String) : Progress σ :=
  let o := p.current.outcome
  match o.document.reference? id with
  | none => p.proceed queue o p.session
  | some reference =>
    match r.lookup reference o.document.path p.session with
    | (.unresolved gap, s) => p.proceed queue (o.mark id reference gap) s
    | (.located path, s) =>
      match p.labelsFrom? path with
      | some labels =>
        p.proceed queue (o.mark id reference (.cyclic (labels ++ [reference.name]))) s
      | none =>
        match s.context.expansion? path with
        | some expansion => p.proceed queue (o.apply id reference expansion) s
        | none =>
          match r.load path with
          | .ok d => p.enter id reference queue path d (s.opening path)
          | .error e =>
            let gap := .malformed e.message
            p.proceed queue (o.mark id reference gap) ((s.opening path).remember path (.failed gap))

/-- The next thing to do: to look into a call, or to leave a macro in which none is left. -/
def step (p : Progress σ) : Option (Progress σ) :=
  match p.current.queue, p.callers with
  | id :: queue, _ => some (r.visit p id queue)
  | [], caller :: callers => some (p.leave caller callers)
  | [], [] => none

/-- What a step can do. -/
inductive Move (p : Progress σ) : Progress σ → Prop
  /-- A macro in which no call is left is spliced into its caller. -/
  | leave {caller callers} (hqueue : p.current.queue = [])
      (hcallers : p.callers = caller :: callers) : Move p (p.leave caller callers)
  /-- There is no call with the identifier any more. -/
  | skip {id queue} (hqueue : p.current.queue = id :: queue)
      (hreference : p.current.outcome.document.reference? id = none) :
      Move p (p.proceed queue p.current.outcome p.session)
  /-- There is no file for the call. -/
  | unresolved {id queue reference gap s} (hqueue : p.current.queue = id :: queue)
      (hreference : p.current.outcome.document.reference? id = some reference)
      (hlookup : r.lookup reference p.current.outcome.document.path p.session =
        (.unresolved gap, s)) :
      Move p (p.proceed queue (p.current.outcome.mark id reference gap) s)
  /-- The call leads back to a file that is being expanded. -/
  | cyclic {id queue reference path s labels} (hqueue : p.current.queue = id :: queue)
      (hreference : p.current.outcome.document.reference? id = some reference)
      (hlookup : r.lookup reference p.current.outcome.document.path p.session = (.located path, s))
      (hlabels : p.labelsFrom? path = some labels) :
      Move p (p.proceed queue
        (p.current.outcome.mark id reference (.cyclic (labels ++ [reference.name]))) s)
  /-- It is known what came of the file. -/
  | reuse {id queue reference path s expansion} (hqueue : p.current.queue = id :: queue)
      (hreference : p.current.outcome.document.reference? id = some reference)
      (hlookup : r.lookup reference p.current.outcome.document.path p.session = (.located path, s))
      (hlabels : p.labelsFrom? path = none)
      (hknown : s.context.expansion? path = some expansion) :
      Move p (p.proceed queue (p.current.outcome.apply id reference expansion) s)
  /-- The file is no workflow. -/
  | fail {id queue reference path s e} (hqueue : p.current.queue = id :: queue)
      (hreference : p.current.outcome.document.reference? id = some reference)
      (hlookup : r.lookup reference p.current.outcome.document.path p.session = (.located path, s))
      (hlabels : p.labelsFrom? path = none) (hknown : s.context.expansion? path = none)
      (hload : r.load path = .error e) :
      Move p (p.proceed queue (p.current.outcome.mark id reference (.malformed e.message))
        ((s.opening path).remember path (.failed (.malformed e.message))))
  /-- The file is opened and expanded before the call is replaced. -/
  | enter {id queue reference path s d} (hqueue : p.current.queue = id :: queue)
      (hreference : p.current.outcome.document.reference? id = some reference)
      (hlookup : r.lookup reference p.current.outcome.document.path p.session = (.located path, s))
      (hlabels : p.labelsFrom? path = none) (hknown : s.context.expansion? path = none)
      (hload : r.load path = .ok d) :
      Move p (p.enter id reference queue path d (s.opening path))

variable {r}

theorem move_of_step {p q : Progress σ} (h : r.step p = some q) : r.Move p q := by
  unfold step at h
  split at h
  · rename_i id queue _ hqueue
    obtain rfl := Option.some.inj h
    unfold visit
    dsimp only
    split
    · rename_i hreference
      exact .skip hqueue hreference
    · rename_i reference hreference
      split
      · rename_i hlookup
        exact .unresolved hqueue hreference hlookup
      · rename_i path s hlookup
        split
        · rename_i hlabels
          exact .cyclic hqueue hreference hlookup hlabels
        · rename_i hlabels
          split
          · rename_i hknown
            exact .reuse hqueue hreference hlookup hlabels hknown
          · rename_i hknown
            split
            · rename_i hload
              exact .enter hqueue hreference hlookup hlabels hknown hload
            · rename_i hload
              exact .fail hqueue hreference hlookup hlabels hknown hload
  · rename_i hqueue hcallers
    obtain rfl := Option.some.inj h
    exact .leave hqueue hcallers
  · cases h

theorem step_eq_none_iff {p : Progress σ} :
    r.step p = none ↔ p.current.queue = [] ∧ p.callers = [] := by
  unfold step
  split <;> simp_all

end Resolver

namespace Progress

variable {σ : Type}

/-- Whether a file need not be opened: it is being expanded, or it is known what came of it. -/
def knows (p : Progress σ) (path : Path) : Bool :=
  p.expands path || (p.session.context.expansion? path).isSome

/-- The number of calls that have not been looked into, and of frames. -/
def tasks (p : Progress σ) : Nat :=
  (p.frames.flatMap Frame.queue).length + p.frames.length

theorem labelsFrom?_eq_none_iff {p : Progress σ} {path : Path} :
    p.labelsFrom? path = none ↔ p.expands path = false := by
  simp [labelsFrom?]

theorem knows_eq_of_beq {p : Progress σ} {path path' : Path} (h : path == path') :
    p.knows path = p.knows path' := by
  have hbeq (q : Path) : (q == path) = (q == path') :=
    Bool.eq_iff_iff.2 ⟨fun hq ↦ BEq.trans hq h, fun hq ↦ BEq.trans hq (BEq.symm h)⟩
  simp only [knows, expands, Context.expansion?, hbeq]

theorem expands_proceed (p : Progress σ) (queue : List String) (o : Outcome) (s : Session σ)
    (path : Path) : (p.proceed queue o s).expands path = p.expands path := by
  simp [expands, frames, proceed]

theorem tasks_proceed (p : Progress σ) (queue : List String) (o : Outcome) (s : Session σ) :
    (p.proceed queue o s).tasks + p.current.queue.length = p.tasks + queue.length := by
  simp [tasks, frames, proceed]
  omega

theorem knows_of_expands {p : Progress σ} {path : Path} (h : p.expands path) : p.knows path := by
  simp [knows, h]

theorem knows_proceed {p : Progress σ} {queue : List String} {o : Outcome} {s : Session σ}
    (hs : ∀ path, (p.session.context.expansion? path).isSome → (s.context.expansion? path).isSome)
    {path : Path} (h : p.knows path) : (p.proceed queue o s).knows path := by
  rw [knows, Bool.or_eq_true] at h ⊢
  rw [expands_proceed]
  exact h.imp id (hs path)

theorem expands_enter (p : Progress σ) (id : String) (reference : Reference) (queue : List String)
    (file : Path) (d : Document) (s : Session σ) (path : Path) :
    (p.enter id reference queue file d s).expands path = (p.expands path || file == path) := by
  simp [expands, frames, enter, Frame.start, Bool.or_assoc]

theorem expands_leave {p : Progress σ} {caller : Caller} {callers : List Caller}
    (hcallers : p.callers = caller :: callers) (path : Path) :
    p.expands path = ((p.leave caller callers).expands path || p.current.file == path) := by
  simp [expands, frames, leave, hcallers, Bool.or_assoc]

theorem tasks_leave {p : Progress σ} {caller : Caller} {callers : List Caller}
    (hqueue : p.current.queue = []) (hcallers : p.callers = caller :: callers) :
    (p.leave caller callers).tasks + 1 = p.tasks := by
  simp [tasks, frames, leave, hqueue, hcallers, Nat.add_assoc]

end Progress

namespace Resolver

variable {σ : Type} {r : Resolver σ}

variable (r) in
/-- The number of files that are still to be opened. -/
def unopened (p : Progress σ) : Nat :=
  (r.targets p.session.context).countP (fun path ↦ !p.knows path)

theorem expansion?_lookup {reference : Reference} {document : Path} {s s' : Session σ}
    {decision : Decision} (h : r.lookup reference document s = (decision, s')) (path : Path) :
    s'.context.expansion? path = s.context.expansion? path := by
  have hsame : s'.context.expansions = s.context.expansions := by
    simpa [h] using r.lookup_expansions reference document s
  simp only [Context.expansion?, hsame]

theorem opened_lookup {reference : Reference} {document : Path} {s s' : Session σ}
    {decision : Decision} (h : r.lookup reference document s = (decision, s')) :
    s'.context.opened = s.context.opened := by
  simpa [h] using r.lookup_opened reference document s

theorem targets_lookup {reference : Reference} {document : Path} {s s' : Session σ}
    {decision : Decision} (h : r.lookup reference document s = (decision, s')) :
    (r.targets s'.context).Sublist (r.targets s.context) := by
  simpa [h] using r.lookup_targets reference document s

theorem unopened_le {p q : Progress σ}
    (htargets : (r.targets q.session.context).Sublist (r.targets p.session.context))
    (hknows : ∀ path, p.knows path → q.knows path) : r.unopened q ≤ r.unopened p := by
  refine Nat.le_trans htargets.countP_le (List.countP_mono_left fun path _ h ↦ ?_)
  simp only [Bool.not_eq_true', Bool.eq_false_iff] at h ⊢
  exact fun hp ↦ h (hknows path hp)

theorem unopened_lt {p q : Progress σ}
    (htargets : (r.targets q.session.context).Sublist (r.targets p.session.context))
    (hknows : ∀ path, p.knows path → q.knows path) {target : Path}
    (hmem : target ∈ r.targets p.session.context) (hnew : p.knows target = false)
    (hknown : q.knows target) : r.unopened q < r.unopened p := by
  refine Nat.lt_of_le_of_lt htargets.countP_le ?_
  obtain ⟨before, after, hsplit⟩ := List.append_of_mem hmem
  have hle (paths : List Path) :
      paths.countP (fun path ↦ !q.knows path) ≤ paths.countP (fun path ↦ !p.knows path) := by
    apply List.countP_mono_left
    intro path _ h
    simp only [Bool.not_eq_true', Bool.eq_false_iff] at h ⊢
    exact fun hp ↦ h (hknows path hp)
  have hbefore := hle before
  have hafter := hle after
  simp only [unopened, hsplit, List.countP_append, List.countP_cons, hnew, hknown]
  simp
  omega

theorem knows_leave {p : Progress σ} {caller : Caller} {callers : List Caller}
    (hcallers : p.callers = caller :: callers) {path : Path} (h : p.knows path) :
    (p.leave caller callers).knows path := by
  have hremember : (p.leave caller callers).session.context.expansion? path =
      if p.current.file == path then
        some (.expanded (p.current.outcome.definition p.current.file))
      else p.session.context.expansion? path :=
    Context.expansion?_remember _ _ _ _
  rw [Progress.knows, Bool.or_eq_true] at h ⊢
  rw [Progress.expands_leave hcallers, Bool.or_eq_true] at h
  rw [hremember]
  by_cases hfile : p.current.file == path
  · simp [hfile]
  · simpa [hfile] using h

/-- To open no fewer files and to leave less to do is progress. -/
theorem decreases_of_tasks_lt {p q : Progress σ} (hopen : r.unopened q ≤ r.unopened p)
    (htasks : q.tasks < p.tasks) :
    Prod.Lex (· < ·) (· < ·) (r.unopened q, q.tasks) (r.unopened p, p.tasks) := by
  rcases Nat.lt_or_eq_of_le hopen with hlt | heq
  · exact .left _ _ hlt
  · rw [heq]
    exact .right _ htasks

/-- A step opens a file that was not opened, or opens none and leaves less to do. -/
theorem step_decreases {p q : Progress σ} (h : r.step p = some q) :
    Prod.Lex (· < ·) (· < ·) (r.unopened q, q.tasks) (r.unopened p, p.tasks) := by
  have less_to_do {o : Outcome} {id : String} {queue : List String} {s : Session σ}
      (hqueue : p.current.queue = id :: queue)
      (htargets : (r.targets s.context).Sublist (r.targets p.session.context))
      (hknown : ∀ path, (p.session.context.expansion? path).isSome →
        (s.context.expansion? path).isSome) :
      Prod.Lex (· < ·) (· < ·) (r.unopened (p.proceed queue o s), (p.proceed queue o s).tasks)
        (r.unopened p, p.tasks) := by
    have hopen := unopened_le (q := p.proceed queue o s) htargets
      (fun _ ↦ Progress.knows_proceed hknown)
    have htasks := p.tasks_proceed queue o s
    rw [hqueue, List.length_cons] at htasks
    apply decreases_of_tasks_lt hopen
    omega
  cases move_of_step h with
  | @leave caller callers hqueue hcallers =>
    have hopen := unopened_le (r := r) (p := p) (q := p.leave caller callers)
      (List.Sublist.refl _) (fun _ ↦ knows_leave hcallers)
    have htasks := Progress.tasks_leave hqueue hcallers
    apply decreases_of_tasks_lt hopen
    omega
  | skip hqueue hreference => exact less_to_do hqueue (List.Sublist.refl _) (fun _ h ↦ h)
  | unresolved hqueue hreference hlookup =>
    exact less_to_do hqueue (targets_lookup hlookup)
      (fun path h ↦ (expansion?_lookup hlookup path).symm ▸ h)
  | cyclic hqueue hreference hlookup hlabels =>
    exact less_to_do hqueue (targets_lookup hlookup)
      (fun path h ↦ (expansion?_lookup hlookup path).symm ▸ h)
  | reuse hqueue hreference hlookup hlabels hknown =>
    exact less_to_do hqueue (targets_lookup hlookup)
      (fun path h ↦ (expansion?_lookup hlookup path).symm ▸ h)
  | fail hqueue hreference hlookup hlabels hknown hload =>
    have htargets := targets_lookup hlookup
    refine less_to_do hqueue htargets (fun path h ↦ ?_)
    rw [← expansion?_lookup hlookup path] at h
    rw [Session.remember, Context.expansion?_remember]
    split
    · rfl
    · exact h
  | @enter id queue reference path s d hqueue hreference hlookup hlabels hknown hload =>
    obtain ⟨target, hmem, htarget⟩ := r.lookup_target (congrArg Prod.fst hlookup)
    have hnew : p.knows target = false := by
      rw [Progress.knows_eq_of_beq htarget, Progress.knows, ← expansion?_lookup hlookup path,
        hknown, Progress.labelsFrom?_eq_none_iff.1 hlabels]
      rfl
    have htargets := targets_lookup hlookup
    refine .left _ _ (unopened_lt htargets (fun path' h ↦ ?_) hmem hnew ?_)
    · rw [Progress.knows, ← expansion?_lookup hlookup path'] at h
      rw [Progress.knows, Progress.expands_enter, Bool.or_right_comm]
      exact Bool.or_eq_true_iff.2 (.inl h)
    · exact Progress.knows_of_expands (by simp [Progress.expands_enter, BEq.symm htarget])

variable (r) in
/-- Takes all steps. -/
def run (p : Progress σ) : Progress σ :=
  match _hstep : r.step p with
  | none => p
  | some next => run next
termination_by (r.unopened p, p.tasks)
decreasing_by exact step_decreases _hstep

theorem run_of_step_none {p : Progress σ} (h : r.step p = none) : r.run p = p := by
  rw [run]
  split <;> simp_all

theorem run_of_step_some {p q : Progress σ} (h : r.step p = some q) : r.run p = r.run q := by
  rw [run]
  split <;> simp_all

/-- What holds at the end, and before a step whenever it holds after the step, holds from any point
on. -/
theorem run_induct {motive : Progress σ → Prop} (done : ∀ p, r.step p = none → motive p)
    (step : ∀ p q, r.step p = some q → motive q → motive p) (p : Progress σ) : motive p := by
  induction p using run.induct (r := r) with
  | case1 p h => exact done p h
  | case2 p q h ih => exact step p q h ih

/-- What every move keeps, a run keeps. -/
theorem run_keeps {kept : Progress σ → Prop} (hmove : ∀ p q, r.Move p q → kept p → kept q)
    {p : Progress σ} (h : kept p) : kept (r.run p) := by
  induction p using run_induct (r := r) with
  | done p hstep => rwa [run_of_step_none hstep]
  | step p q hstep ih =>
    rw [run_of_step_some hstep]
    exact ih (hmove p q (move_of_step hstep) h)

/-- At the end no call is left and no frame waits. -/
theorem run_done (p : Progress σ) : (r.run p).current.queue = [] ∧ (r.run p).callers = [] := by
  induction p using run_induct (r := r) with
  | done p hstep =>
    rw [run_of_step_none hstep]
    exact step_eq_none_iff.1 hstep
  | step p q hstep ih => rwa [run_of_step_some hstep]

variable (r) in
/-- Takes some steps, fewer if there are no more. -/
def advance : Nat → Progress σ → Progress σ
  | 0, p => p
  | count + 1, p =>
    match r.step p with
    | none => p
    | some next => advance count next

/-- Steps that leave nothing to do are all steps. -/
theorem run_eq_advance {count : Nat} {p : Progress σ} (h : r.step (r.advance count p) = none) :
    r.run p = r.advance count p := by
  induction count generalizing p with
  | zero => exact run_of_step_none h
  | succ count ih =>
    unfold advance at h ⊢
    cases hstep : r.step p with
    | none => exact run_of_step_none hstep
    | some next =>
      rw [hstep] at h
      rw [run_of_step_some hstep]
      exact ih h

variable (r) in
/-- Replaces every call in a document. -/
def resolve (d : Document) (s : Session σ) : Outcome × Session σ :=
  let done := r.run (.start d (r.files.canonical d.path) s)
  (done.current.outcome, done.session)

theorem resolve_eq_of_advance {count : Nat} {d : Document} {s : Session σ} {p : Progress σ}
    (hp : r.advance count (.start d (r.files.canonical d.path) s) = p) (h : r.step p = none) :
    r.resolve d s = (p.current.outcome, p.session) := by
  rw [← hp] at h
  rw [resolve, run_eq_advance h, hp]

variable (r) in
/-- Replaces every call in the document in a file. -/
def resolveFile (path : Path) (s : Session σ) : Except LoadError (Outcome × Session σ) :=
  match r.load path with
  | .error e => .error e
  | .ok document => .ok (r.resolve document s)

/-- The sessions in which some documents, latest first, have been resolved one after the other, each
in one of some allowed ways. -/
inductive History (allowed : Resolver σ → Prop) (folders : List Path) :
    List Document → Session σ → Prop
  | start (operator : σ) : History allowed folders [] ⟨.start folders, operator⟩
  | resolve {earlier s r} (h : History allowed folders earlier s) (hr : allowed r) (d : Document) :
      History allowed folders (d :: earlier) (r.resolve d s).2

end Resolver

end Provenance
