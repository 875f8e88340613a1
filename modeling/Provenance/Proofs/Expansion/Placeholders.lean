import Provenance.Expansion.Resolver
import Provenance.Proofs.Expansion.Settled

/-!
# Issues and placeholders

Each call that could not be replaced leaves one placeholder in the document and one issue, in the
same order. Every frame of a run is settled up to the calls that are left in it, and what is
remembered is settled (`RunSettles`), as long as the documents that are opened have plain
identifiers. Every move keeps this (`RunSettles.move`), and at the end no call is left.
-/

namespace Provenance

/-- The macros that are remembered are settled. -/
def Context.Settled (c : Context) : Prop :=
  ∀ path d, c.expansion? path = some (.expanded d) → d.Settled

theorem Context.Settled.remember {c : Context} (h : c.Settled) (path : Path) {e : Expansion}
    (he : ∀ d, e = .expanded d → d.Settled) : (c.remember path e).Settled := by
  intro path' d hknown
  rw [expansion?_remember] at hknown
  split at hknown
  · exact he d (Option.some.inj hknown)
  · exact h path' d hknown

/-- What has become of a document is settled, and so are the documents that wait for it. The last of
them, with which the run began, is at a path, and is settled under a condition. -/
def SettlesAll (root : Path) (condition : Prop) (o : Outcome) (rest : List String) :
    List Caller → Prop
  | [] => o.document.path = root ∧ (condition → o.Settles rest)
  | caller :: callers =>
    o.Settles rest ∧
      caller.frame.outcome.document.reference? caller.callSite = some caller.reference ∧
      SettlesAll root condition caller.frame.outcome (caller.callSite :: caller.frame.queue) callers

theorem SettlesAll.imp {root : Path} {condition : Prop} {o o' : Outcome} {rest rest' : List String}
    {callers : List Caller} (h : SettlesAll root condition o rest callers)
    (hpath : o'.document.path = o.document.path) (himp : o.Settles rest → o'.Settles rest') :
    SettlesAll root condition o' rest' callers := by
  cases callers with
  | nil => exact ⟨hpath.trans h.1, fun hcondition ↦ himp (h.2 hcondition)⟩
  | cons caller callers => exact ⟨himp h.1, h.2⟩

namespace Resolver

variable {σ : Type}

section

variable (r : Resolver σ)

/-- The documents in the macro files that were opened have plain identifiers. -/
def OpenedPlain (c : Context) : Prop :=
  ∀ file ∈ c.opened, ∀ d, r.load file = .ok d → d.PlainIds

/-- The state of a run is settled, if the documents that were opened have plain identifiers. -/
def RunSettles (root : Path) (condition : Prop) (p : Progress σ) : Prop :=
  r.OpenedPlain p.session.context →
    SettlesAll root condition p.current.outcome p.current.queue p.callers ∧
      p.session.context.Settled

end

variable {r : Resolver σ} {root : Path} {condition : Prop}

theorem OpenedPlain.of_opening {s : Session σ} {path : Path}
    (h : r.OpenedPlain (s.opening path).context) : r.OpenedPlain s.context :=
  fun file hfile ↦ h file (List.mem_cons_of_mem _ hfile)

/-- A look-up neither opens a file nor changes what is remembered. -/
theorem RunSettles.lookup {p : Progress σ} (hp : r.RunSettles root condition p)
    {reference : Reference} {document : Path} {decision : Decision} {s : Session σ}
    (hlookup : r.lookup reference document p.session = (decision, s))
    (hplain : r.OpenedPlain s.context) :
    SettlesAll root condition p.current.outcome p.current.queue p.callers ∧ s.context.Settled := by
  have hopened : s.context.opened = p.session.context.opened := by
    simpa [hlookup] using r.lookup_opened reference document p.session
  unfold OpenedPlain at hplain
  rw [hopened] at hplain
  obtain ⟨hframes, hcontext⟩ := hp hplain
  exact ⟨hframes, fun path d hknown ↦
    hcontext path d ((expansion?_lookup hlookup path).symm.trans hknown)⟩

/-- Every move settles a call, or goes to a document in which none is settled yet. -/
theorem RunSettles.move (hload : ∀ file d, r.load file = .ok d → d.Unmarked) {p q : Progress σ}
    (h : r.Move p q) (hp : r.RunSettles root condition p) : r.RunSettles root condition q := by
  intro hplain
  cases h with
  | @leave caller callers hqueue hcallers =>
    obtain ⟨hframes, hcontext⟩ := hp hplain
    rw [hqueue, hcallers] at hframes
    obtain ⟨hsettled, hreference, hbelow⟩ := hframes
    constructor
    · exact hbelow.imp (Outcome.path_expand ..) fun h ↦ h.expand hreference hsettled
    · apply hcontext.remember
      intro d hd
      cases hd
      exact hsettled
  | @skip id queue hqueue hreference =>
    obtain ⟨hframes, hcontext⟩ := hp hplain
    rw [hqueue] at hframes
    exact ⟨hframes.imp rfl fun h ↦ absurd hreference h.reference?_ne_none, hcontext⟩
  | @unresolved id queue reference gap s hqueue hreference hlookup =>
    obtain ⟨hframes, hcontext⟩ := hp.lookup hlookup hplain
    rw [hqueue] at hframes
    exact ⟨hframes.imp rfl fun h ↦ h.mark hreference gap, hcontext⟩
  | @cyclic id queue reference path s labels hqueue hreference hlookup hlabels =>
    obtain ⟨hframes, hcontext⟩ := hp.lookup hlookup hplain
    rw [hqueue] at hframes
    exact ⟨hframes.imp rfl fun h ↦ h.mark hreference _, hcontext⟩
  | @reuse id queue reference path s expansion hqueue hreference hlookup hlabels hknown =>
    obtain ⟨hframes, hcontext⟩ := hp.lookup hlookup hplain
    rw [hqueue] at hframes
    have hsettled (d : Definition) (hd : expansion = .expanded d) : d.Settled :=
      hcontext path d (hknown.trans (congrArg some hd))
    exact ⟨hframes.imp (Outcome.path_apply ..) fun h ↦ h.apply hreference hsettled, hcontext⟩
  | @fail id queue reference path s e hqueue hreference hlookup hlabels hknown hfailed =>
    obtain ⟨hframes, hcontext⟩ := hp.lookup hlookup hplain.of_opening
    rw [hqueue] at hframes
    constructor
    · exact hframes.imp rfl fun h ↦ h.mark hreference _
    · apply hcontext.remember
      intro d hd
      cases hd
  | @enter id queue reference path s d hqueue hreference hlookup hlabels hknown hopened =>
    obtain ⟨hframes, hcontext⟩ := hp.lookup hlookup hplain.of_opening
    rw [hqueue] at hframes
    have hids : d.PlainIds := hplain path (List.mem_cons_self ..) d hopened
    exact ⟨⟨Outcome.settles_start hids (hload path d hopened), hreference, hframes⟩, hcontext⟩

/-- A whole run settles what it works on. -/
theorem runSettles_run (hload : ∀ file d, r.load file = .ok d → d.Unmarked) {d : Document}
    (hd : condition → d.PlainIds ∧ d.Unmarked) {s : Session σ}
    (hs : r.OpenedPlain s.context → s.context.Settled) :
    r.RunSettles d.path condition (r.run (.start d (r.files.canonical d.path) s)) := by
  apply run_keeps (fun _ _ ↦ RunSettles.move hload)
  intro hplain
  have hstart (hcondition : condition) : (Outcome.start d).Settles (d.pending.map Node.id) :=
    Outcome.settles_start (hd hcondition).1 (hd hcondition).2
  exact ⟨⟨rfl, hstart⟩, hs hplain⟩

theorem History.settled (hload : ∀ file d, r.load file = .ok d → d.Unmarked) {folders : List Path}
    {earlier : List Document} {s : Session σ}
    (h : History (fun r' ↦ r'.load = r.load) folders earlier s) :
    r.OpenedPlain s.context → s.context.Settled := by
  induction h with
  | start operator =>
    intro _ path d hknown
    simp [Context.expansion?, (Context.sameRecords_start folders).expansions] at hknown
  | @resolve _ s r' _ hr d ih =>
    have hopened (c : Context) : r'.OpenedPlain c ↔ r.OpenedPlain c := by
      unfold OpenedPlain
      rw [hr]
    have hrun : r'.RunSettles d.path False (r'.run (.start d (r'.files.canonical d.path) s)) :=
      runSettles_run (hr ▸ hload) False.elim (fun h ↦ ih ((hopened _).1 h))
    exact fun hplain ↦ (hrun ((hopened _).2 hplain)).2

/-- After a document from a file has been resolved, no call is left to look into, and the issues
describe the placeholders one by one. Earlier documents may have been searched for in another way,
and others may have been asked. -/
theorem resolve_issues_placeholders (hload : r.load = Document.load r.files) {folders : List Path}
    {earlier : List Document} {s : Session σ}
    (hs : History (fun r' ↦ r'.load = r.load) folders earlier s) {file : Path}
    {d : Document} (hd : r.load file = .ok d) (hids : d.PlainIds)
    (hopened : r.OpenedPlain (r.resolve d s).2.context) :
    (r.resolve d s).1.document.pending = [] ∧
      (r.resolve d s).1.issues.map Issue.node =
        (r.resolve d s).1.document.placeholders.map Node.id ∧
      ((r.resolve d s).1.issues.map Issue.node).Nodup ∧
      List.Forall₂ (fun issue n ↦ n.gap = some issue.gap ∧ n.reference = some issue.reference ∧
          n.origin = issue.origin ∧ issue.document = d.path)
        (r.resolve d s).1.issues (r.resolve d s).1.document.placeholders := by
  have hunmarked : ∀ file d, r.load file = .ok d → d.Unmarked := by
    rw [hload]
    exact fun _ _ h _ hn ↦ Document.nodes_of_load h hn
  have hrun : r.RunSettles d.path True (r.run (.start d (r.files.canonical d.path) s)) :=
    runSettles_run hunmarked (fun _ ↦ ⟨hids, hunmarked file d hd⟩) (hs.settled hunmarked)
  obtain ⟨hqueue, hcallers⟩ := run_done (r := r) (.start d (r.files.canonical d.path) s)
  have hframes := (hrun hopened).1
  rw [hqueue, hcallers] at hframes
  obtain ⟨hpath, hsettles⟩ := hframes
  have hsettled := hsettles trivial
  refine ⟨List.map_eq_nil_iff.1 hsettled.pending, hsettled.issue_nodes,
    hsettled.issue_nodes_nodup, ?_⟩
  apply hsettled.forall₂_issues.imp
  intro issue n h
  obtain ⟨hgap, hreference, -, horigin, hdocument⟩ := h
  exact ⟨hgap, hreference, horigin, hdocument.trans hpath⟩

/-- A workflow that calls `Macro1` and `Macro2`, and the first of these, which calls `Macro2`. -/
def nestedFiles : FileSystem where
  root := .folder
    [("D.yxmd", .file "<W><Nodes><Node ToolID='1'/><Node ToolID='2'/></Nodes></W>".toUTF8),
     ("Macro1.yxmc", .file "<W><Nodes><Node ToolID='2'/></Nodes></W>".toUTF8)]
  workingFolder := []
  ordered := Entry.ordered_folder_pair (by decide +kernel) _ _
  named := FileSystem.isName_of_mem_nil

/-- A resolver that loads workflows from files and asks nobody. -/
def ofFiles (files : FileSystem) : Resolver Unit where
  files := files
  load := Document.load files
  options := ⟨.everywhere, 3⟩
  operator := .absent

theorem load_ofFiles (files : FileSystem) :
    (ofFiles files).load = Document.load (ofFiles files).files := by
  simp only [ofFiles]

/-- The resolver for the workflow. -/
def nestedResolver : Resolver Unit := ofFiles nestedFiles

/-- The document in a file, or some document if there is none. -/
def loaded (path : String) : Document :=
  (nestedResolver.load ⟨path⟩).toOption.getD default

theorem load_eq_loaded {path : String} (h : (nestedResolver.load ⟨path⟩).toOption.isSome) :
    nestedResolver.load ⟨path⟩ = .ok (loaded path) := by
  unfold loaded
  cases hload : nestedResolver.load ⟨path⟩ with
  | error e => simp [hload, Except.toOption] at h
  | ok d => rfl

/-- The end of the run that resolves the workflow. -/
def nestedEnd : Progress Unit :=
  nestedResolver.advance 4 (.start (loaded "/D.yxmd")
    (nestedResolver.files.canonical (loaded "/D.yxmd").path) ⟨.start [], ()⟩)

theorem resolve_issues_placeholders_nested :
    nestedResolver.load = Document.load nestedResolver.files ∧
      History (fun r ↦ r.load = nestedResolver.load) [] [] ⟨.start [], ()⟩ ∧
      nestedResolver.load ⟨"/D.yxmd"⟩ = .ok (loaded "/D.yxmd") ∧ (loaded "/D.yxmd").PlainIds ∧
      nestedResolver.OpenedPlain
        (nestedResolver.resolve (loaded "/D.yxmd") ⟨.start [], ()⟩).2.context ∧
      ((nestedResolver.resolve (loaded "/D.yxmd") ⟨.start [], ()⟩).1.document.pending = [] ∧
        (nestedResolver.resolve (loaded "/D.yxmd") ⟨.start [], ()⟩).1.issues.map Issue.node =
          (nestedResolver.resolve (loaded "/D.yxmd") ⟨.start [], ()⟩).1.document.placeholders.map
            Node.id ∧
        ((nestedResolver.resolve (loaded "/D.yxmd") ⟨.start [], ()⟩).1.issues.map
          Issue.node).Nodup ∧
        List.Forall₂ (fun issue n ↦ n.gap = some issue.gap ∧ n.reference = some issue.reference ∧
            n.origin = issue.origin ∧ issue.document = (loaded "/D.yxmd").path)
          (nestedResolver.resolve (loaded "/D.yxmd") ⟨.start [], ()⟩).1.issues
          (nestedResolver.resolve (loaded "/D.yxmd") ⟨.start [], ()⟩).1.document.placeholders) ∧
      (nestedResolver.resolve (loaded "/D.yxmd") ⟨.start [], ()⟩).1.issues.map Issue.node =
        ["1/2", "2"] := by
  have hloader : nestedResolver.load = Document.load nestedResolver.files :=
    load_ofFiles nestedFiles
  have hload : nestedResolver.load ⟨"/D.yxmd"⟩ = .ok (loaded "/D.yxmd") :=
    load_eq_loaded (by decide +kernel)
  have hmacro : nestedResolver.load ⟨"/Macro1.yxmc"⟩ = .ok (loaded "/Macro1.yxmc") :=
    load_eq_loaded (by decide +kernel)
  have hids : (loaded "/D.yxmd").PlainIds ∧ (loaded "/Macro1.yxmc").PlainIds := by decide +kernel
  have hs : History (fun r ↦ r.load = nestedResolver.load) [] [] ⟨.start [], ()⟩ := .start ()
  have hrun : (nestedResolver.step nestedEnd).isNone ∧
      nestedEnd.session.context.opened.map Path.text = ["/Macro1.yxmc"] ∧
      nestedEnd.current.outcome.issues.map Issue.node = ["1/2", "2"] := by
    decide +kernel
  have hresolve : nestedResolver.resolve (loaded "/D.yxmd") ⟨.start [], ()⟩ =
      (nestedEnd.current.outcome, nestedEnd.session) :=
    resolve_eq_of_advance nestedEnd.eq_1.symm (Option.isNone_iff_eq_none.1 hrun.1)
  have hopened : nestedResolver.OpenedPlain
      (nestedResolver.resolve (loaded "/D.yxmd") ⟨.start [], ()⟩).2.context := by
    rw [hresolve]
    dsimp only
    intro file hfile d hd
    have htext := List.mem_map_of_mem (f := Path.text) hfile
    rw [hrun.2.1] at htext
    obtain rfl : file = ⟨"/Macro1.yxmc"⟩ := congrArg Path.mk (List.mem_singleton.1 htext)
    obtain rfl := Except.ok.inj (hd.symm.trans hmacro)
    exact hids.2
  refine ⟨hloader, hs, hload, hids.1, hopened,
    resolve_issues_placeholders hloader hs hload hids.1 hopened, ?_⟩
  rw [hresolve]
  dsimp only
  exact hrun.2.2

end Resolver

end Provenance
