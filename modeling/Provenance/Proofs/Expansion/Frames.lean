import Provenance.Expansion.Resolver

/-!
# What holds of every frame

A run works on a stack of frames and remembers what came of each file. To show that something holds
of all frames and of all that is remembered, it is enough to say what it is (`Claim`) and that it
stands when one call is looked into (`Sustains`): the stack is dealt with here, once for all
(`Sustains.move`), and so are whole runs and histories (`Sustains.resolve`, `Sustains.history`).

A claim about a frame is kept from its beginning on. For a macro it has to be true at the beginning,
if only files are opened that are allowed; for the document that is resolved it may also be false.
-/

namespace Provenance

namespace Resolver

variable {σ : Type}

/-- What look-ups keep, and what files that are opened or remembered do not touch, all moves keep. -/
theorem session_move {r : Resolver σ} {kept : Session σ → Prop}
    (hlookup : ∀ reference document s, kept s → kept (r.lookup reference document s).2)
    (hopening : ∀ s path, kept s → kept (s.opening path))
    (hremember : ∀ s path e, kept s → kept (s.remember path e)) {p q : Progress σ}
    (h : r.Move p q) (hp : kept p.session) : kept q.session := by
  have hasked {reference : Reference} {document : Path} {decision : Decision} {s : Session σ}
      (heq : r.lookup reference document p.session = (decision, s)) : kept s := by
    simpa [heq] using hlookup reference document p.session hp
  cases h with
  | leave => exact hremember _ _ _ hp
  | skip => exact hp
  | unresolved _ _ heq => exact hasked heq
  | cyclic _ _ heq => exact hasked heq
  | reuse _ _ heq => exact hasked heq
  | fail _ _ heq => exact hremember _ _ _ (hopening _ _ (hasked heq))
  | enter _ _ heq => exact hopening _ _ (hasked heq)

/-- What is claimed of a run. -/
structure Claim (σ : Type) where
  /-- Of the memory and the operator, whatever is remembered of files. -/
  session : Session σ → Prop
  /-- Of what has become of a document when some calls are left in it. -/
  frame : Document → Outcome → List String → Prop
  /-- Of what is remembered of a file. -/
  known : Path → Expansion → Prop

namespace Claim

variable (c : Claim σ)

/-- The claim about a document in which no call has been looked into. -/
def Begins (d : Document) : Prop :=
  c.frame d (.start d) (d.pending.map Node.id)

/-- What is claimed between two runs. -/
def Memory (s : Session σ) : Prop :=
  c.session s ∧ ∀ path e, s.context.expansion? path = some e → c.known path e

end Claim

section

variable (r : Resolver σ) (c : Claim σ) (allowed : Path → Prop)

/-- Whether a reference in a document may be located at a path. -/
def Locates (reference : Reference) (document path : Path) : Prop :=
  ∃ s s', c.session s ∧ r.lookup reference document s = (.located path, s')

/-- A claim stands when one call is looked into, in a run for the document in a file. -/
structure Sustains (root : Path) : Prop where
  lookup {s s' reference document decision} (hs : c.session s)
    (hlookup : r.lookup reference document s = (decision, s')) : c.session s'
  opening {s path} (hs : c.session s) : c.session (s.opening path)
  remember {s path e} (hs : c.session s) : c.session (s.remember path e)
  start {path d} (hallowed : allowed path) (hload : r.load path = .ok d) : c.Begins d
  skip {d o id rest} (h : c.frame d o (id :: rest)) (hreference : o.document.reference? id = none) :
    c.frame d o rest
  unresolved {d o id rest reference gap s s'} (h : c.frame d o (id :: rest))
    (hreference : o.document.reference? id = some reference) (hs : c.session s)
    (hlookup : r.lookup reference o.document.path s = (.unresolved gap, s')) :
    c.frame d (o.mark id reference gap) rest
  cyclic {d o id rest reference} (chain : List String) (h : c.frame d o (id :: rest))
    (hreference : o.document.reference? id = some reference) :
    c.frame d (o.mark id reference (.cyclic chain)) rest
  apply {d o id rest reference path e} (h : c.frame d o (id :: rest))
    (hreference : o.document.reference? id = some reference)
    (hlocated : r.Locates c reference o.document.path path) (hroot : ¬root == path)
    (hknown : c.known path e) : c.frame d (o.apply id reference e) rest
  finish {d o path reference document} (hallowed : allowed path)
    (hlocated : r.Locates c reference document path) (hload : r.load path = .ok d)
    (h : c.frame d o []) : c.known path (.expanded (o.definition path))
  fail {path reference document e} (hlocated : r.Locates c reference document path)
    (hload : r.load path = .error e) : c.known path (.failed (.malformed e.message))
  spelled {path path' e} (heq : path == path') (h : c.known path e) : c.known path' e

/-- A frame above some others expands a document, and the claim stands for the frames below it. -/
inductive Stack (root : Document) : Frame → List Caller → Document → Prop
  | root {frame} (hfile : frame.file = r.files.canonical root.path) : Stack root frame [] root
  | called {frame caller callers d d'} (hcaller : Stack root caller.frame callers d)
      (hwaits : c.Begins d →
        c.frame d caller.frame.outcome (caller.callSite :: caller.frame.queue))
      (hreference : caller.frame.outcome.document.reference? caller.callSite =
        some caller.reference)
      (hlocated : r.Locates c caller.reference caller.frame.outcome.document.path frame.file)
      (hroot : ¬r.files.canonical root.path == frame.file) (hallowed : allowed frame.file)
      (hload : r.load frame.file = .ok d') : Stack root frame (caller :: callers) d'

/-- The claim stands for a whole run. -/
structure Holds (root : Document) (p : Progress σ) : Prop where
  memory : c.Memory p.session
  frames : ∃ d, r.Stack c allowed root p.current p.callers d ∧
    (c.Begins d → c.frame d p.current.outcome p.current.queue)

end

variable {r : Resolver σ} {c : Claim σ} {allowed : Path → Prop} {root : Document}

theorem Stack.of_file_eq {frame frame' : Frame} {callers : List Caller} {d : Document}
    (h : r.Stack c allowed root frame callers d) (hfile : frame'.file = frame.file) :
    r.Stack c allowed root frame' callers d := by
  cases h with
  | root hroot => exact .root (hfile.trans hroot)
  | called hcaller hwaits hreference hlocated hroot hallowed hload =>
    exact .called hcaller hwaits hreference (hfile ▸ hlocated) (hfile ▸ hroot) (hfile ▸ hallowed)
      (hfile ▸ hload)

theorem Stack.exists_root {frame : Frame} {callers : List Caller} {d : Document}
    (h : r.Stack c allowed root frame callers d) :
    ∃ f ∈ frame :: callers.map Caller.frame, f.file = r.files.canonical root.path := by
  induction h with
  | @root frame hfile => exact ⟨frame, List.mem_singleton_self _, hfile⟩
  | called _ _ _ _ _ _ _ ih =>
    obtain ⟨f, hf, hfile⟩ := ih
    exact ⟨f, List.mem_cons_of_mem _ hf, hfile⟩

/-- A file that is not expanded is not that of the document. -/
theorem Stack.root_ne {p : Progress σ} {d : Document}
    (h : r.Stack c allowed root p.current p.callers d) {path : Path}
    (hlabels : p.labelsFrom? path = none) : ¬r.files.canonical root.path == path := by
  intro heq
  obtain ⟨f, hf, hfile⟩ := h.exists_root
  have hexpands : p.expands path = true := by
    simp only [Progress.expands, Progress.frames, List.any_eq_true]
    exact ⟨f, by simpa [or_comm] using hf, hfile ▸ heq⟩
  rw [Progress.labelsFrom?_eq_none_iff.1 hlabels] at hexpands
  cases hexpands

theorem Claim.Memory.of_expansions_eq {s s' : Session σ} (h : c.Memory s) (hs : c.session s')
    (hexpansion : ∀ path, s'.context.expansion? path = s.context.expansion? path) : c.Memory s' :=
  ⟨hs, fun path e hknown ↦ h.2 path e ((hexpansion path).symm.trans hknown)⟩

section

variable (hsustains : r.Sustains c allowed (r.files.canonical root.path))

include hsustains

theorem Sustains.memory_lookup {s s' : Session σ} (h : c.Memory s) {reference : Reference}
    {document : Path} {decision : Decision}
    (hlookup : r.lookup reference document s = (decision, s')) : c.Memory s' :=
  h.of_expansions_eq (hsustains.lookup h.1 hlookup) (expansion?_lookup hlookup)

theorem Sustains.memory_opening {s : Session σ} (h : c.Memory s) (path : Path) :
    c.Memory (s.opening path) :=
  h.of_expansions_eq (hsustains.opening h.1) fun _ ↦ rfl

theorem Sustains.memory_remember {s : Session σ} (h : c.Memory s) {path : Path} {e : Expansion}
    (he : c.known path e) : c.Memory (s.remember path e) := by
  refine ⟨hsustains.remember h.1, fun path' e' hknown ↦ ?_⟩
  rw [Session.remember, Context.expansion?_remember] at hknown
  split at hknown
  · rename_i heq
    obtain rfl := Option.some.inj hknown
    exact hsustains.spelled heq he
  · exact h.2 path' e' hknown

omit hsustains in
theorem Holds.proceed {p : Progress σ} (hp : r.Holds c allowed root p) {queue : List String}
    {o : Outcome} {s : Session σ} (hs : c.Memory s)
    (hframe : ∀ d, r.Stack c allowed root p.current p.callers d →
      c.frame d p.current.outcome p.current.queue → c.frame d o queue) :
    r.Holds c allowed root (p.proceed queue o s) := by
  obtain ⟨d, hstack, hcurrent⟩ := hp.frames
  exact ⟨hs, d, hstack.of_file_eq rfl, fun hbegins ↦ hframe d hstack (hcurrent hbegins)⟩

/-- Every move keeps what is claimed, as long as the files that are opened are allowed. -/
theorem Sustains.move {p q : Progress σ} (h : r.Move p q)
    (hp : (∀ file ∈ p.session.context.opened, allowed file) → r.Holds c allowed root p)
    (hopened : ∀ file ∈ q.session.context.opened, allowed file) :
    r.Holds c allowed root q := by
  cases h with
  | @leave caller callers hqueue hcallers =>
    obtain ⟨hmemory, inner, hstack, hcurrent⟩ := hp hopened
    rw [hcallers] at hstack
    cases hstack with
    | @called _ _ _ d _ hcaller hwaits hreference hlocated hroot hallowed hload =>
      have hdone := hcurrent (hsustains.start hallowed hload)
      rw [hqueue] at hdone
      have hknown := hsustains.finish hallowed hlocated hload hdone
      refine ⟨hsustains.memory_remember hmemory hknown, d, hcaller.of_file_eq rfl, fun hbegins ↦ ?_⟩
      exact hsustains.apply (hwaits hbegins) hreference hlocated hroot hknown
  | skip hqueue hreference =>
    have hp := hp hopened
    refine hp.proceed hp.memory fun d _ hframe ↦ ?_
    rw [hqueue] at hframe
    exact hsustains.skip hframe hreference
  | unresolved hqueue hreference hlookup =>
    have hp := hp fun file hfile ↦ hopened file ((opened_lookup hlookup).symm ▸ hfile)
    refine hp.proceed (hsustains.memory_lookup hp.memory hlookup) fun d _ hframe ↦ ?_
    rw [hqueue] at hframe
    exact hsustains.unresolved hframe hreference hp.memory.1 hlookup
  | cyclic hqueue hreference hlookup hlabels =>
    have hp := hp fun file hfile ↦ hopened file ((opened_lookup hlookup).symm ▸ hfile)
    refine hp.proceed (hsustains.memory_lookup hp.memory hlookup) fun d _ hframe ↦ ?_
    rw [hqueue] at hframe
    exact hsustains.cyclic _ hframe hreference
  | reuse hqueue hreference hlookup hlabels hknown =>
    have hp := hp fun file hfile ↦ hopened file ((opened_lookup hlookup).symm ▸ hfile)
    have hmemory := hsustains.memory_lookup hp.memory hlookup
    refine hp.proceed hmemory fun d hstack hframe ↦ ?_
    rw [hqueue] at hframe
    exact hsustains.apply hframe hreference ⟨_, _, hp.memory.1, hlookup⟩ (hstack.root_ne hlabels)
      (hmemory.2 _ _ hknown)
  | fail hqueue hreference hlookup hlabels hknown hload =>
    have hp := hp fun file hfile ↦
      hopened file (List.mem_cons_of_mem _ ((opened_lookup hlookup).symm ▸ hfile))
    have hmemory := hsustains.memory_lookup hp.memory hlookup
    have hlocated : r.Locates c _ _ _ := ⟨_, _, hp.memory.1, hlookup⟩
    have hfailed := hsustains.fail hlocated hload
    refine hp.proceed (hsustains.memory_remember (hsustains.memory_opening hmemory _) hfailed)
      fun d hstack hframe ↦ ?_
    rw [hqueue] at hframe
    exact hsustains.apply hframe hreference hlocated (hstack.root_ne hlabels) hfailed
  | enter hqueue hreference hlookup hlabels hknown hload =>
    have hp := hp fun file hfile ↦
      hopened file (List.mem_cons_of_mem _ ((opened_lookup hlookup).symm ▸ hfile))
    have hmemory := hsustains.memory_lookup hp.memory hlookup
    have hallowed := hopened _ (List.mem_cons_self ..)
    obtain ⟨d, hstack, hcurrent⟩ := hp.frames
    rw [hqueue] at hcurrent
    exact ⟨hsustains.memory_opening hmemory _, _,
      .called (hstack.of_file_eq rfl) hcurrent hreference ⟨_, _, hp.memory.1, hlookup⟩
        (hstack.root_ne hlabels) hallowed hload, id⟩

/-- What is claimed of a document stands when all its calls have been looked into, and what is
claimed of the memory stands in any case. -/
theorem Sustains.resolve {s : Session σ}
    (hs : (∀ file ∈ s.context.opened, allowed file) → c.Memory s)
    (hopened : ∀ file ∈ (r.resolve root s).2.context.opened, allowed file) :
    c.Memory (r.resolve root s).2 ∧ (c.Begins root → c.frame root (r.resolve root s).1 []) := by
  have hstart : (∀ file ∈ s.context.opened, allowed file) →
      r.Holds c allowed root (.start root (r.files.canonical root.path) s) :=
    fun hallowed ↦ ⟨hs hallowed, root, .root rfl, id⟩
  have hend := run_keeps (r := r) (fun _ _ hmove hp ↦ hsustains.move hmove hp) hstart hopened
  obtain ⟨d, hstack, hcurrent⟩ := hend.frames
  obtain ⟨hqueue, hcallers⟩ := run_done (r := r) (.start root (r.files.canonical root.path) s)
  rw [hqueue] at hcurrent
  rw [hcallers] at hstack
  cases hstack with
  | root => exact ⟨hend.memory, hcurrent⟩

end

/-- What is claimed of the memory stands in every history. -/
theorem Sustains.history {of : Resolver σ → Prop} {folders : List Path}
    (hsustains : ∀ r, of r → ∀ root, r.Sustains c allowed root)
    (hstart : ∀ operator : σ, c.session ⟨.start folders, operator⟩) {earlier : List Document}
    {s : Session σ} (h : History of folders earlier s) :
    (∀ file ∈ s.context.opened, allowed file) → c.Memory s := by
  induction h with
  | start operator =>
    refine fun _ ↦ ⟨hstart operator, fun path e hknown ↦ ?_⟩
    simp [Context.expansion?, (Context.sameRecords_start folders).expansions] at hknown
  | resolve _ hr d ih => exact fun hopened ↦ ((hsustains _ hr _).resolve ih hopened).1

end Resolver

end Provenance
