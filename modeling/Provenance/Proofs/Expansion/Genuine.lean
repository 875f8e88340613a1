import Provenance.Proofs.Expansion.Circles
import Provenance.Proofs.Expansion.Memory
import Provenance.Proofs.Expansion.Misses

/-!
# Reported cycles are genuine

A call is reported as cyclic only if there is a circle of files, and the names on it make up the
chain that is reported (`Resolver.resolve_cyclic`). So a macro that is called several times or along
several ways, but from which none leads back, is never reported.

When an issue is raised, the frames are the circle. Afterwards it may be remembered with a macro and
relocated into other documents, in this run or in a later one, and still tells of the circle that was
found when it was raised (`Issue.Genuine`). Every step of a resolution keeps this (`Tracks.step`).
-/

open Relation

namespace Provenance

variable {σ : Type}

/-- The next step from a state marks a call, and this raises an issue, which may have been relocated
since. -/
def Resolution.Raises (run : Resolution σ) (p : Progress σ) (i : Issue) : Prop :=
  run.Reaches p ∧ ∃ id q, run.resolver.step p = some q ∧
    q.current.outcome = p.current.outcome.mark id i.reference i.gap ∧
      i.origin = Outcome.originOf p.current.outcome.document id

/-- Whether all documents have plain identifiers. -/
structure Resolution.Plain (run : Resolution σ) : Prop where
  document : run.document.PlainIds
  files : ∀ file d, run.resolver.load file = .ok d → d.PlainIds

/-- If an issue reports a chain of names, these are the names on a circle of files that was found by
the resolution that raised the issue. The circle is closed by the call that the issue is about, in
the file that was expanded then. -/
def Issue.Genuine (runs : List (Resolution σ)) (i : Issue) : Prop :=
  ∀ chain, i.gap = .cyclic chain → ∃ run ∈ runs, ∃ p name calls, run.Raises p i ∧
    run.Circle name calls ∧ calls.getLast? = some (p.current.file, i.reference) ∧
      chain = name :: calls.map (fun call ↦ call.2.name)

/-- What came of a file reports nothing but circles. -/
def Expansion.Genuine (runs : List (Resolution σ)) : Expansion → Prop
  | .failed gap => gap.isFatal = false
  | .expanded d => ∀ i ∈ d.issues, i.Genuine runs

/-- An operator decides against a call only because there is no macro for it. -/
def Context.DecidesMisses (c : Context) : Prop :=
  ∀ reference gap, c.decision? reference = some (.unresolved gap) → gap.isMiss

/-- In what has become of a document the calls that are left are as they were written. -/
structure Document.Awaits (d : Document) (o : Outcome) (rest : List String) : Prop where
  path : o.document.path = d.path
  calls : ∃ before, d.pending.map Node.id = before ++ rest
  kept : ∀ id ∈ rest, o.document.node? id = d.node? id

theorem Gap.isFatal_eq_false_of_isMiss {gap : Gap} (h : gap.isMiss) : gap.isFatal = false := by
  cases gap with
  | cyclic chain => cases h
  | _ => rfl

theorem Document.isFatal_eq_false_of_splice {parent d : Document} {callSite : String} {gap : Gap}
    (h : parent.splice callSite d = .error gap) : gap.isFatal = false := by
  unfold splice at h
  split at h
  · obtain rfl := Except.error.inj h
    rfl
  · dsimp only at h
    split at h
    · cases h
    · obtain rfl := Except.error.inj h
      rfl

namespace Resolver

/-! ## Decisions -/

theorem isMiss_of_ask (r : Resolver σ) {reference : Reference} {document : Path}
    {left attempt : Nat} {s : Session σ} {gap : Gap}
    (h : (r.ask reference document left attempt s).1 = .unresolved gap) : gap.isMiss := by
  induction left generalizing attempt s with
  | zero =>
    cases h
    rfl
  | succ left ih =>
    unfold ask at h
    cases hq : r.question reference document attempt s with
    | mk answer s' =>
      rw [hq] at h
      cases answer with
      | file path =>
        dsimp only at h
        split at h
        · cases h
        · exact ih h
      | folder path =>
        dsimp only at h
        split at h
        · split at h
          · cases h
          · exact ih h
        · exact ih h
      | skip =>
        cases h
        rfl
      | skipAll =>
        cases h
        rfl
      | decline =>
        cases h
        rfl

section

variable {r : Resolver σ} {s s' : Session σ} {reference : Reference} {document : Path}
  (hs : s.context.DecidesMisses)

include hs

theorem isMiss_of_lookup {gap : Gap} (h : r.lookup reference document s = (.unresolved gap, s')) :
    gap.isMiss := by
  unfold lookup at h
  split at h
  · cases h
  · split at h
    · rename_i hdecision
      obtain ⟨rfl, -⟩ := Prod.mk.inj h
      exact hs reference gap hdecision
    · split at h
      · cases h
        rfl
      · exact r.isMiss_of_ask (congrArg Prod.fst h)

theorem decidesMisses_lookup : (r.lookup reference document s).2.context.DecidesMisses := by
  unfold lookup
  split
  · exact hs
  · split
    · exact hs
    · split
      · exact hs
      · intro reference' gap h
        dsimp only at h
        rw [Context.decision?_decide] at h
        split at h
        · exact r.isMiss_of_ask (Option.some.inj h)
        · have hsame := r.ask_sameRecords reference document r.options.maxAttempts 1 s
          refine hs reference' gap (Eq.trans ?_ h)
          simp only [Context.decision?, hsame.decisions]

end

theorem decidesMisses_move {r : Resolver σ} {p q : Progress σ} (h : r.Move p q)
    (hp : p.session.context.DecidesMisses) : q.session.context.DecidesMisses := by
  let kept (s : Session σ) : Prop := s.context.DecidesMisses
  have hlookup (reference : Reference) (document : Path) (s : Session σ) (hs : kept s) :
      kept (r.lookup reference document s).2 :=
    decidesMisses_lookup hs
  exact session_move hlookup (fun _ _ hs ↦ hs) (fun _ _ _ hs ↦ hs) h hp

end Resolver

/-! ## Issues -/

namespace Issue

variable {runs runs' : List (Resolution σ)} {i j : Issue}

theorem exists_chain (h : i.isFatal) : ∃ chain, i.gap = .cyclic chain := by
  unfold isFatal Gap.isFatal at h
  split at h
  · rename_i chain hchain
    exact ⟨chain, hchain⟩
  · cases h

theorem genuine_of_not_fatal (h : i.gap.isFatal = false) : i.Genuine runs := by
  intro chain hchain
  rw [hchain] at h
  cases h

/-- To relocate an issue changes nothing about where it was raised. -/
theorem Genuine.relocate (h : i.Genuine runs) (callSite : String) (document : Path) :
    (i.relocate callSite document).Genuine runs := h

theorem Genuine.mono (hsub : runs ⊆ runs') (h : i.Genuine runs) : i.Genuine runs' := by
  intro chain hchain
  obtain ⟨run, hrun, hcircle⟩ := h chain hchain
  exact ⟨run, hsub hrun, hcircle⟩

end Issue

theorem Expansion.Genuine.mono {runs runs' : List (Resolution σ)} (hsub : runs ⊆ runs')
    {e : Expansion} (h : e.Genuine runs) : e.Genuine runs' := by
  cases e with
  | failed gap => exact h
  | expanded d => exact fun i hi ↦ (h i hi).mono hsub

/-- A macro brings along its own issues, or a gap that is no circle. -/
theorem Outcome.genuine_apply {o : Outcome} {id : String} {reference : Reference}
    {runs : List (Resolution σ)} (ho : ∀ i ∈ o.issues, i.Genuine runs) {e : Expansion}
    (he : e.Genuine runs) : ∀ i ∈ (o.apply id reference e).issues, i.Genuine runs := by
  have hmark {gap : Gap} (hgap : gap.isFatal = false) :
      ∀ i ∈ (o.mark id reference gap).issues, i.Genuine runs := by
    intro i hi
    rcases List.mem_append.1 hi with hold | hnew
    · exact ho i hold
    · rw [List.mem_singleton.1 hnew]
      exact Issue.genuine_of_not_fatal hgap
  cases e with
  | failed gap => exact hmark he
  | expanded d =>
    change ∀ i ∈ (o.expand id reference d).issues, i.Genuine runs
    unfold expand
    split
    · rename_i hsplice
      exact hmark (Document.isFatal_eq_false_of_splice hsplice)
    · intro i hi
      rcases List.mem_append.1 hi with hold | hnew
      · exact ho i hold
      · obtain ⟨inner, hinner, rfl⟩ := List.mem_map.1 hnew
        exact (he inner hinner).relocate _ _

/-! ## Calls that are left -/

namespace Document

variable {d : Document} {o o' : Outcome} {id : String} {rest : List String}

theorem awaits_start (d : Document) : d.Awaits (.start d) (d.pending.map Node.id) :=
  ⟨rfl, ⟨[], rfl⟩, fun _ _ ↦ rfl⟩

variable (h : d.Awaits o (id :: rest)) (hd : d.PlainIds)

include h hd

theorem Awaits.next (hpath : o'.document.path = o.document.path)
    (hothers : ∀ id', id' ≠ id → (∀ inner, Splice.inner id inner ≠ id') →
      o'.document.node? id' = o.document.node? id') : d.Awaits o' rest := by
  obtain ⟨before, hids⟩ := h.calls
  refine ⟨hpath.trans h.path, ⟨before ++ [id], by simp [hids]⟩, fun id' hid' ↦ ?_⟩
  obtain ⟨hne, hclear⟩ := hd.apart hids hid'
  rw [hothers id' hne hclear]
  exact h.kept id' (List.mem_cons_of_mem _ hid')

/-- The next call is one that was written in the document. -/
theorem Awaits.exists_mem_pending {reference : Reference}
    (hreference : o.document.reference? id = some reference) :
    ∃ n ∈ d.pending, n.id = id ∧ n.reference = some reference := by
  obtain ⟨before, hids⟩ := h.calls
  have hmem : id ∈ d.pending.map Node.id := by simp [hids]
  obtain ⟨n, hn, rfl⟩ := List.mem_map.1 hmem
  have hnode := hd.distinct.node?_eq_some (List.mem_filter.1 hn).1
  rw [reference?, h.kept n.id (List.mem_cons_self ..), hnode] at hreference
  exact ⟨n, hn, rfl, hreference⟩

end Document

namespace Resolution

section

variable (run : Resolution σ) (runs : List (Resolution σ))

/-- What has become of the content of a file: the calls that are left are as they were written, and
what is reported is genuine. -/
structure Intact (file : Path) (o : Outcome) (rest : List String) : Prop where
  awaits : ∃ d, run.Contains file d ∧ d.Awaits o rest
  genuine : ∀ i ∈ o.issues, i.Genuine runs

/-- A frame below others waits for the macro of a call. -/
structure Waits (caller : Caller) : Prop where
  reference : caller.frame.outcome.document.reference? caller.callSite = some caller.reference
  frame : run.Intact runs caller.frame.file caller.frame.outcome
    (caller.callSite :: caller.frame.queue)

/-- A state of a resolution in which all that is reported or remembered is genuine. -/
structure Tracks (p : Progress σ) : Prop where
  untold : p.Untold
  decisions : p.session.context.DecidesMisses
  known : ∀ path e, p.session.context.expansion? path = some e → e.Genuine runs
  tower : run.Tower p.current p.callers
  callers : ∀ caller ∈ p.callers, run.Waits runs caller
  current : run.Intact runs p.current.file p.current.outcome p.current.queue

end

variable {run : Resolution σ} {runs : List (Resolution σ)}

theorem Plain.contains (hplain : run.Plain) {file : Path} {d : Document}
    (h : run.Contains file d) : d.PlainIds := by
  unfold Contains at h
  split at h
  · exact h ▸ hplain.document
  · exact hplain.files file d h

/-! ## Steps -/

theorem Intact.next {id : String} {file : Path} {o o' : Outcome} {rest : List String}
    (h : run.Intact runs file o (id :: rest)) (hplain : run.Plain)
    (hpath : o'.document.path = o.document.path)
    (hothers : ∀ id', id' ≠ id → (∀ inner, Splice.inner id inner ≠ id') →
      o'.document.node? id' = o.document.node? id')
    (hissues : ∀ i ∈ o'.issues, i.Genuine runs) : run.Intact runs file o' rest := by
  obtain ⟨d, hcontains, hawaits⟩ := h.awaits
  exact ⟨⟨d, hcontains, hawaits.next (hplain.contains hcontains) hpath hothers⟩, hissues⟩

theorem Intact.apply {id : String} {reference : Reference} {file : Path} {o : Outcome}
    {rest : List String} (h : run.Intact runs file o (id :: rest)) (hplain : run.Plain)
    (hreference : o.document.reference? id = some reference) {e : Expansion}
    (he : e.Genuine runs) : run.Intact runs file (o.apply id reference e) rest :=
  h.next hplain (o.path_apply ..)
    (fun _ hne hclear ↦ Outcome.node?_apply_of_ne hreference e hne hclear)
    (Outcome.genuine_apply h.genuine he)

theorem genuine_remember {s : Session σ}
    (hs : ∀ path e, s.context.expansion? path = some e → e.Genuine runs) {e : Expansion}
    (he : e.Genuine runs) (file : Path) :
    ∀ path e', (s.remember file e).context.expansion? path = some e' → e'.Genuine runs := by
  intro path e' hknown
  rw [Session.remember, Context.expansion?_remember] at hknown
  split at hknown
  · exact Option.some.inj hknown ▸ he
  · exact hs path e' hknown

section

variable {p q : Progress σ} {id : String} {queue : List String} {reference : Reference} {path : Path}
  (hp : run.Tracks runs p) (hplain : run.Plain) (hreaches : run.Reaches p)

include hp hplain hreaches

/-- The next call is one that the file at hand contains. -/
theorem Tracks.looks (hqueue : p.current.queue = id :: queue)
    (hreference : p.current.outcome.document.reference? id = some reference) {s : Session σ}
    (hlookup : run.resolver.lookup reference p.current.outcome.document.path p.session =
      (.located path, s)) : run.Looks p p.current.file reference path := by
  obtain ⟨d, hcontains, hawaits⟩ := hp.current.awaits
  rw [hqueue] at hawaits
  obtain ⟨n, hn, rfl, hnreference⟩ :=
    hawaits.exists_mem_pending (hplain.contains hcontains) hreference
  exact ⟨d, n, queue, s, hreaches, rfl, hcontains, hn, hnreference, hqueue, hawaits.path ▸ hlookup⟩

/-- Every step of a resolution reports nothing but circles. -/
theorem Tracks.step (hrun : run ∈ runs) (hstep : run.resolver.step p = some q) :
    run.Tracks runs q := by
  have hmove := Resolver.move_of_step hstep
  have huntold := Resolver.untold_move hmove hp.untold
  have hdecisions := Resolver.decidesMisses_move hmove hp.decisions
  have hcurrent := hp.current
  have hasked {reference : Reference} {document : Path} {decision : Decision} {s : Session σ}
      (hlookup : run.resolver.lookup reference document p.session = (decision, s)) :
      ∀ path e, s.context.expansion? path = some e → e.Genuine runs :=
    fun path e he ↦ hp.known path e ((Resolver.expansion?_lookup hlookup path).symm.trans he)
  cases hmove with
  | @leave caller callers hqueue hcallers =>
    have htower := hp.tower
    rw [hcallers] at htower
    have hwaits := hp.callers caller (hcallers ▸ List.mem_cons_self ..)
    have hgenuine : (Expansion.expanded (p.current.outcome.definition p.current.file)).Genuine
        runs := hcurrent.genuine
    cases htower with
    | called hcaller =>
      exact ⟨huntold, hdecisions, genuine_remember hp.known hgenuine _, hcaller.of_eq rfl rfl,
        fun caller hmem ↦ hp.callers caller (hcallers ▸ List.mem_cons_of_mem _ hmem),
        hwaits.frame.apply hplain hwaits.reference hgenuine⟩
  | skip hqueue =>
    rw [hqueue] at hcurrent
    exact ⟨huntold, hdecisions, hp.known, hp.tower.of_eq rfl rfl, hp.callers,
      hcurrent.next hplain rfl (fun _ _ _ ↦ rfl) hcurrent.genuine⟩
  | @unresolved id queue reference gap s hqueue hreference hlookup =>
    rw [hqueue] at hcurrent
    have hgenuine : (Expansion.failed gap).Genuine runs :=
      Gap.isFatal_eq_false_of_isMiss (Resolver.isMiss_of_lookup hp.decisions hlookup)
    exact ⟨huntold, hdecisions, hasked hlookup, hp.tower.of_eq rfl rfl, hp.callers,
      hcurrent.apply hplain hreference hgenuine⟩
  | @cyclic id queue reference path s labels hqueue hreference hlookup hlabels =>
    have hlooks := hp.looks hplain hreaches hqueue hreference hlookup
    obtain ⟨name, calls, hcircle, hlast, hnames⟩ :=
      hp.tower.exists_circle hp.untold.files hlabels hlooks
    rw [hqueue] at hcurrent
    refine ⟨huntold, hdecisions, hasked hlookup, hp.tower.of_eq rfl rfl, hp.callers,
      hcurrent.next hplain rfl
        (fun _ hne _ ↦ p.current.outcome.document.node?_setGap_of_ne hne _) fun i hi ↦ ?_⟩
    rcases List.mem_append.1 hi with hold | hnew
    · exact hcurrent.genuine i hold
    · obtain rfl := List.mem_singleton.1 hnew
      intro chain hchain
      obtain rfl := Gap.cyclic.inj hchain
      exact ⟨run, hrun, p, name, calls, ⟨hreaches, id, _, hstep, rfl, rfl⟩, hcircle, hlast, hnames⟩
  | reuse hqueue hreference hlookup _ hexpansion =>
    rw [hqueue] at hcurrent
    exact ⟨huntold, hdecisions, hasked hlookup, hp.tower.of_eq rfl rfl, hp.callers,
      hcurrent.apply hplain hreference (hasked hlookup _ _ hexpansion)⟩
  | @fail id queue reference path s e hqueue hreference hlookup =>
    rw [hqueue] at hcurrent
    have hgenuine : (Expansion.failed (.malformed e.message)).Genuine runs := rfl
    exact ⟨huntold, hdecisions, genuine_remember (hasked hlookup) hgenuine _,
      hp.tower.of_eq rfl rfl, hp.callers, hcurrent.apply hplain hreference hgenuine⟩
  | @enter id queue reference path s d hqueue hreference hlookup hlabels hexpansion hload =>
    have hlooks := hp.looks hplain hreaches hqueue hreference hlookup
    have hexpands := Progress.labelsFrom?_eq_none_iff.1 hlabels
    have hnew : p.knows path = false := by
      rw [Progress.knows, hexpands, ← Resolver.expansion?_lookup hlookup, hexpansion]
      rfl
    have hcontains : run.Contains path d := by
      rw [Contains, if_neg (hp.tower.root_ne hexpands)]
      exact hload
    have hknown := hasked hlookup
    rw [hqueue] at hcurrent
    refine ⟨huntold, hdecisions, hknown, .called (hp.tower.of_eq rfl rfl) hlooks hnew rfl,
      fun caller hmem ↦ ?_, ⟨d, hcontains, d.awaits_start⟩, fun i hi ↦ by cases hi⟩
    rcases List.mem_cons.1 hmem with rfl | hold
    · exact ⟨hreference, hcurrent⟩
    · exact hp.callers caller hold

end

/-- A resolution that begins with a memory in which all is genuine reports nothing but circles. -/
theorem tracks_run (run : Resolution σ) (hplain : run.Plain)
    (hdecisions : run.session.context.DecidesMisses)
    (hknown : ∀ path e, run.session.context.expansion? path = some e → e.Genuine runs) :
    run.Tracks (run :: runs) (run.resolver.run run.start) := by
  have hstart : run.Tracks (run :: runs) run.start := by
    refine ⟨Progress.untold_start _ _ _, hdecisions,
      fun path e he ↦ (hknown path e he).mono (List.subset_cons_self ..), .root rfl rfl,
      fun caller hmem ↦ ?_, ⟨_, run.contains_root, run.document.awaits_start⟩, fun i hi ↦ ?_⟩
    · cases hmem
    · cases hi
  exact (reaches_run run).induct hstart fun _ _ hreaches hstep hp ↦
    hp.step hplain hreaches (List.mem_cons_self ..) hstep

end Resolution

namespace Resolver

/-! ## Whole histories -/

/-- Resolutions one after the other, latest first, and the session that they lead to. -/
inductive Annals (folders : List Path) : List (Resolution σ) → Session σ → Prop
  | start (operator : σ) : Annals folders [] ⟨.start folders, operator⟩
  | resolve {runs s} (h : Annals folders runs s) (r : Resolver σ) (d : Document) :
      Annals folders (⟨r, d, s⟩ :: runs) (r.resolve d s).2

variable {folders : List Path} {runs : List (Resolution σ)} {s : Session σ}

theorem Annals.genuine (h : Annals folders runs s) (hplain : ∀ run ∈ runs, run.Plain) :
    s.context.DecidesMisses ∧
      ∀ path e, s.context.expansion? path = some e → e.Genuine runs := by
  induction h with
  | start operator =>
    have hsame := Context.sameRecords_start folders
    constructor
    · intro reference gap hdecision
      simp [Context.decision?, hsame.decisions] at hdecision
    · intro path e hknown
      simp [Context.expansion?, hsame.expansions] at hknown
  | @resolve runs s h r d ih =>
    obtain ⟨hdecisions, hknown⟩ := ih fun run hrun ↦ hplain run (List.mem_cons_of_mem _ hrun)
    have hrun := Resolution.tracks_run ⟨r, d, s⟩ (hplain _ (List.mem_cons_self ..)) hdecisions hknown
    exact ⟨hrun.decisions, hrun.known⟩

/-- Every cyclic issue of a document, whether it is raised now or was remembered with a macro,
reports the names on a circle of files that was found when it was raised. So nothing is reported as
cyclic where no file leads back to itself by calls that were found. -/
theorem resolve_cyclic (hs : Annals folders runs s) (r : Resolver σ) (d : Document)
    (hplain : ∀ run ∈ (⟨r, d, s⟩ : Resolution σ) :: runs, run.Plain) :
    ∀ i ∈ (r.resolve d s).1.issues, i.Genuine (⟨r, d, s⟩ :: runs) ∧
      (i.isFatal → ∃ run ∈ (⟨r, d, s⟩ : Resolution σ) :: runs, ∃ file,
        TransGen run.Calls file file) := by
  obtain ⟨hdecisions, hknown⟩ := hs.genuine fun run hrun ↦ hplain run (List.mem_cons_of_mem _ hrun)
  have hrun := Resolution.tracks_run ⟨r, d, s⟩ (hplain _ (List.mem_cons_self ..)) hdecisions hknown
  intro i hi
  have hgenuine : i.Genuine (⟨r, d, s⟩ :: runs) := hrun.current.genuine i hi
  refine ⟨hgenuine, fun hfatal ↦ ?_⟩
  obtain ⟨chain, hchain⟩ := Issue.exists_chain hfatal
  obtain ⟨run, hrun, p, name, calls, -, hcircle, -⟩ := hgenuine chain hchain
  exact ⟨run, hrun, hcircle.transGen⟩

/-! ## A circle that is found, and remembered -/

/-- The documents `A` and `B` call each other, and a third one calls `B`. -/
theorem plain_ring (s : Session Unit) : (⟨ringResolver, pairCaller, s⟩ : Resolution Unit).Plain := by
  have hplain (name path target : String) :
      (singleton name path (.call "1" (.named target))).PlainIds := by
    refine ⟨List.nodup_singleton _, fun n hn ↦ ?_⟩
    obtain rfl := List.mem_singleton.1 hn
    change '/' ∉ "1".toList
    decide
  refine ⟨hplain "D" "/D.yxmd" "B", fun file d hload ↦ ?_⟩
  dsimp only [ringResolver] at hload
  split at hload
  · cases hload
    exact hplain "A" "/A.yxmc" "B"
  · split at hload
    · cases hload
      exact hplain "B" "/B.yxmc" "A"
    · cases hload

/-- The third document is resolved twice. -/
def ringRuns : List (Resolution Unit) :=
  [⟨ringResolver, pairCaller, ringSession⟩, ⟨ringResolver, pairCaller, ⟨.start [], ()⟩⟩]

/-- The end of the second time, when `B` is remembered. -/
def ringAgain : Progress Unit :=
  ringResolver.advance 1 (ringResolver.begin pairCaller
    (ringResolver.advance 8 (ringResolver.begin pairCaller ⟨.start [], ()⟩)).session)

theorem resolve_cyclic_ring :
    Annals [] ringRuns.tail ringSession ∧ (∀ run ∈ ringRuns, run.Plain) ∧
      (∀ i ∈ (ringResolver.resolve pairCaller ringSession).1.issues, i.Genuine ringRuns ∧
        (i.isFatal → ∃ run ∈ ringRuns, ∃ file, TransGen run.Calls file file)) ∧
      (ringResolver.resolve pairCaller ringSession).1.issues.map (fun i ↦ (i.node, i.gap)) =
        [("1/1/1", .cyclic ["B", "A", "B"])] := by
  have hs : Annals [] ringRuns.tail ringSession := .resolve (.start ()) ringResolver pairCaller
  have hplain : ∀ run ∈ ringRuns, run.Plain := by
    intro run hrun
    rcases List.mem_pair.1 hrun with rfl | rfl <;> exact plain_ring _
  have hfirst : ringResolver.step (ringResolver.advance 8
      (ringResolver.begin pairCaller ⟨.start [], ()⟩)) = none :=
    Option.isNone_iff_eq_none.1 (by decide +kernel)
  have hsession : ringSession = (ringResolver.advance 8
      (ringResolver.begin pairCaller ⟨.start [], ()⟩)).session :=
    congrArg Prod.snd (resolve_eq_of_advance rfl hfirst)
  have hagain : ringResolver.step ringAgain = none :=
    Option.isNone_iff_eq_none.1 (by decide +kernel)
  refine ⟨hs, hplain, resolve_cyclic hs ringResolver pairCaller hplain, ?_⟩
  rw [hsession, resolve_eq_of_advance rfl hagain]
  decide +kernel

end Resolver

end Provenance
