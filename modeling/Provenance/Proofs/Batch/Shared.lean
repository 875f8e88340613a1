import Provenance.Proofs.Expansion.Frames
import Provenance.Proofs.Inventory.History
import Provenance.Proofs.Sorting

/-!
# Macros that several workflows share

A macro is shared if it comes up in files of different workflows. The workflow of a file is the one
that its document names, and expansion keeps this name (`name_resolve`), so the macros that a batch
shares can be told from what its files name and what comes up in them (`run_shared`). Two files of
one workflow name count as one workflow: a macro that no other file has to do with is not listed
(`run_shared_namesakes`).
-/

namespace Provenance

/-! ## Names of documents -/

theorem Document.name_splice {parent definition result : Document} {callSite : String}
    (h : parent.splice callSite definition = .ok result) : result.name = parent.name := by
  unfold splice at h
  split at h
  · cases h
  · dsimp only at h
    split at h
    · rw [← Except.ok.inj h]
    · cases h

namespace Outcome

theorem name_expand (o : Outcome) (id : String) (reference : Reference) (d : Definition) :
    (o.expand id reference d).document.name = o.document.name := by
  unfold expand
  split
  · rfl
  · rename_i h
    exact Document.name_splice h

theorem name_apply (o : Outcome) (id : String) (reference : Reference) (e : Expansion) :
    (o.apply id reference e).document.name = o.document.name := by
  cases e with
  | expanded d => exact o.name_expand id reference d
  | failed gap => rfl

end Outcome

namespace Resolver

variable {σ : Type} (r : Resolver σ)

/-- What becomes of a document keeps the document's name. -/
def naming (σ : Type) : Claim σ where
  session _ := True
  frame d o _ := o.document.name = d.name
  known _ _ := True

theorem sustains_naming (root : Path) : r.Sustains (naming σ) (fun _ ↦ True) root where
  lookup _ _ := trivial
  opening _ := trivial
  remember _ := trivial
  start _ _ := rfl
  skip h _ := h
  unresolved h _ _ _ := h
  cyclic _ h _ := h
  apply h _ _ _ _ := (Outcome.name_apply ..).trans h
  finish _ _ _ _ := trivial
  fail _ _ := trivial
  spelled _ _ := trivial

theorem name_resolve (d : Document) (s : Session σ) :
    (r.resolve d s).1.document.name = d.name :=
  ((r.sustains_naming _).resolve (fun _ ↦ ⟨trivial, fun _ _ _ ↦ trivial⟩)
    (fun _ _ ↦ trivial)).2 rfl

end Resolver

/-! ## Shared macros -/

/-- Of a list in strict order, that it has two elements. -/
theorem one_lt_length_iff_of_pairwise {names : List String} (h : names.Pairwise (· < ·)) :
    1 < names.length ↔ ∃ x ∈ names, ∃ y ∈ names, x ≠ y := by
  constructor
  · intro hlength
    match names, h with
    | x :: y :: rest, h =>
      have hlt : x < y := List.rel_of_pairwise_cons h (List.mem_cons_self ..)
      exact ⟨x, by simp, y, by simp, fun heq ↦ String.lt_irrefl _ (heq ▸ hlt)⟩
  · rintro ⟨x, hx, y, hy, hne⟩
    match names with
    | [] => cases hx
    | [z] =>
      rw [List.mem_singleton] at hx hy
      exact absurd (hx.trans hy.symm) hne
    | _ :: _ :: _ => simp

/-- A macro is shared if it came up in recordings of different workflows. -/
theorem Inventory.exists_shared_iff {history : List Recording} {name : String} :
    (∃ r ∈ (ofHistory history).shared, r.name = name) ↔
      ∃ e ∈ history, ∃ e' ∈ history, e.outcome.Mentions name ∧ e'.outcome.Mentions name ∧
        e.workflow ≠ e'.workflow := by
  have h := reflects_ofHistory history
  have husers {r : MacroRecord} (hr : r ∈ (ofHistory history).records) (workflow : String) :
      workflow ∈ r.users ↔ ∃ e ∈ history, e.workflow = workflow ∧ e.outcome.Mentions r.name :=
    ((h.get?_of_mem hr).2.users workflow).trans exists_mention_in_iff
  have hshared {r : MacroRecord} (hr : r ∈ (ofHistory history).records) : r.isShared = true ↔
      ∃ x ∈ r.users, ∃ y ∈ r.users, x ≠ y := by
    rw [MacroRecord.isShared, decide_eq_true_iff]
    exact one_lt_length_iff_of_pairwise (h.get?_of_mem hr).2.ordered.pairwise_keys
  constructor
  · rintro ⟨r, hr, rfl⟩
    obtain ⟨hr, hmany⟩ := List.mem_filter.1 hr
    obtain ⟨x, hx, y, hy, hne⟩ := (hshared hr).1 hmany
    obtain ⟨e, he, rfl, hmentions⟩ := (husers hr x).1 hx
    obtain ⟨e', he', rfl, hmentions'⟩ := (husers hr y).1 hy
    exact ⟨e, he, e', he', hmentions, hmentions', hne⟩
  · rintro ⟨e, he, e', he', hmentions, hmentions', hne⟩
    have hname := (h.names name).2 (exists_mention_iff.2 ⟨e, he, hmentions⟩)
    rw [← h.map_name_records] at hname
    obtain ⟨r, hr, rfl⟩ := List.mem_map.1 hname
    have hmany := (hshared hr).2 ⟨_, (husers hr _).2 ⟨e, he, rfl, hmentions⟩, _,
      (husers hr _).2 ⟨e', he', rfl, hmentions'⟩, hne⟩
    exact ⟨r, List.mem_filter.2 ⟨hr, hmany⟩, rfl⟩

namespace Pipeline

variable {σ : Type} (p : Pipeline σ)

/-- The name of the workflow in a file, if there is one. -/
def workflow? (path : Path) : Option String :=
  (p.resolver.load path).toOption.map Document.name

/-- A macro comes up when a file is expanded. -/
def Involves (name : String) (v : Visit σ) : Prop :=
  ∃ o, p.outcome v = .ok o ∧ o.Mentions name

/-- What is recorded of a file, if it can be loaded. -/
def recording? (v : Visit σ) : Option Inventory.Recording :=
  (p.resolver.load v.path).toOption.map (fun d ↦
    ⟨(p.resolver.resolve d v.session).1.document.name, (p.resolver.resolve d v.session).1,
      (p.resolver.resolve d v.session).2.context⟩)

/-- What is recorded of some files, one after the other. -/
def recordings (visits : List (Visit σ)) : List Inventory.Recording :=
  visits.filterMap p.recording?

variable {p} in
/-- A file adds what is recorded of it. -/
theorem inventory_process {visits : List (Visit σ)} {b : Batch}
    (h : b.inventory = .ofHistory (p.recordings visits)) (v : Visit σ) :
    (p.process (b, v.session) v.path).1.inventory =
      .ofHistory (p.recordings (visits ++ [v])) := by
  rw [recordings, filterMap_concat]
  cases hload : p.resolver.load v.path with
  | error e =>
    have hnone : p.recording? v = none := by simp [recording?, hload, Except.toOption]
    rw [hnone, Option.toList_none, List.append_nil, ← recordings, ← h, process,
      Resolver.resolveFile, hload]
    rfl
  | ok d =>
    have hsome : p.recording? v =
        some ⟨(p.resolver.resolve d v.session).1.document.name, (p.resolver.resolve d v.session).1,
          (p.resolver.resolve d v.session).2.context⟩ := by
      simp [recording?, hload, Except.toOption]
    rw [inventory_process_of_load hload, hsome, Option.toList_some, h, Inventory.ofHistory,
      Inventory.ofHistory, List.foldl_concat, recordings]

variable {p} in
theorem inventory_foldl_process {visits : List (Visit σ)} {b : Batch}
    (h : b.inventory = .ofHistory (p.recordings visits)) (paths : List Path) (s : Session σ) :
    (paths.foldl p.process (b, s)).1.inventory =
      .ofHistory (p.recordings (visits ++ p.visits paths s)) := by
  induction paths generalizing visits b s with
  | nil => simpa [Pipeline.visits] using h
  | cons path rest ih =>
    rw [Pipeline.visits, ← p.session_process b s path, List.append_cons]
    exact ih (inventory_process h ⟨path, s⟩) _

/-- The inventory of a batch is made of what is recorded of its files. -/
theorem inventory_run (paths : List Path) (s : Session σ) :
    (p.run paths s).1.inventory = .ofHistory (p.recordings (p.visits paths s)) := by
  have hempty : Batch.empty.inventory = .ofHistory (p.recordings []) := rfl
  exact inventory_foldl_process hempty paths s

variable {p} in
theorem exists_recording_iff {v : Visit σ} {name : String} {workflow : String} :
    (∃ e, p.recording? v = some e ∧ e.outcome.Mentions name ∧ e.workflow = workflow) ↔
      p.Involves name v ∧ p.workflow? v.path = some workflow := by
  unfold recording? Involves outcome workflow?
  cases p.resolver.load v.path with
  | error e => simp [Except.toOption]
  | ok d => simp [Except.toOption, Except.map, p.resolver.name_resolve]

variable {p} in
theorem exists_workflow_of_involves {v : Visit σ} {name : String} (h : p.Involves name v) :
    ∃ workflow, p.workflow? v.path = some workflow := by
  obtain ⟨o, houtcome, -⟩ := h
  unfold outcome at houtcome
  cases hload : p.resolver.load v.path with
  | error e => simp [hload, Except.map] at houtcome
  | ok d => exact ⟨d.name, by simp [workflow?, hload, Except.toOption]⟩

/-- A macro is shared if it comes up in files of different workflows. -/
theorem exists_shared_run_iff {paths : List Path} {s : Session σ} {name : String} :
    (∃ r ∈ (p.run paths s).1.inventory.shared, r.name = name) ↔
      ∃ v ∈ p.visits paths s, ∃ v' ∈ p.visits paths s,
        p.Involves name v ∧ p.Involves name v' ∧ p.workflow? v.path ≠ p.workflow? v'.path := by
  rw [inventory_run, Inventory.exists_shared_iff]
  simp only [recordings, List.mem_filterMap]
  constructor
  · rintro ⟨e, ⟨v, hv, he⟩, e', ⟨v', hv', he'⟩, hmentions, hmentions', hne⟩
    obtain ⟨hinvolves, hname⟩ := exists_recording_iff.1 ⟨e, he, hmentions, rfl⟩
    obtain ⟨hinvolves', hname'⟩ := exists_recording_iff.1 ⟨e', he', hmentions', rfl⟩
    refine ⟨v, hv, v', hv', hinvolves, hinvolves', fun heq ↦ hne ?_⟩
    rw [hname, hname'] at heq
    exact Option.some.inj heq
  · rintro ⟨v, hv, v', hv', hinvolves, hinvolves', hne⟩
    obtain ⟨workflow, hname⟩ := exists_workflow_of_involves hinvolves
    obtain ⟨workflow', hname'⟩ := exists_workflow_of_involves hinvolves'
    obtain ⟨e, he, hmentions, rfl⟩ := exists_recording_iff.2 ⟨hinvolves, hname⟩
    obtain ⟨e', he', hmentions', rfl⟩ := exists_recording_iff.2 ⟨hinvolves', hname'⟩
    exact ⟨e, ⟨v, hv, he⟩, e', ⟨v', hv', he'⟩, hmentions, hmentions',
      fun heq ↦ hne (by rw [hname, hname', heq])⟩

variable {p} in
/-- A macro is shared if it comes up in two files of different workflows. -/
theorem exists_two_shared_run_iff {paths : List Path} {s : Session σ} {name : String} :
    (∃ r ∈ (p.run paths s).1.inventory.shared, r.name = name) ↔
      ∃ v v', [v, v'].Sublist (p.visits paths s) ∧ p.Involves name v ∧ p.Involves name v' ∧
        p.workflow? v.path ≠ p.workflow? v'.path := by
  rw [exists_shared_run_iff]
  constructor
  · rintro ⟨v, hv, v', hv', hinvolves, hinvolves', hne⟩
    have hdistinct : v ≠ v' := fun heq ↦ hne (heq ▸ rfl)
    rcases pair_sublist_or hv hv' hdistinct with hsub | hsub
    · exact ⟨v, v', hsub, hinvolves, hinvolves', hne⟩
    · exact ⟨v', v, hsub, hinvolves', hinvolves, hne.symm⟩
  · rintro ⟨v, v', hsub, hinvolves, hinvolves', hne⟩
    exact ⟨v, hsub.subset (by simp), v', hsub.subset (by simp), hinvolves, hinvolves', hne⟩

/-- If the files in which a macro comes up have different workflow names, the macro is shared just if
there are two of them. Two files of one name do not make it shared. -/
theorem run_shared (paths : List Path) (s : Session σ) (name : String) :
    ((∃ r ∈ (p.run paths s).1.inventory.shared, r.name = name) ↔
      ∃ v v', [v, v'].Sublist (p.visits paths s) ∧ p.Involves name v ∧ p.Involves name v' ∧
        p.workflow? v.path ≠ p.workflow? v'.path) ∧
    ((p.visits paths s).Pairwise (fun v v' ↦
        p.Involves name v → p.Involves name v' → p.workflow? v.path ≠ p.workflow? v'.path) →
      ((∃ r ∈ (p.run paths s).1.inventory.shared, r.name = name) ↔
        ∃ v v', [v, v'].Sublist (p.visits paths s) ∧ p.Involves name v ∧ p.Involves name v')) := by
  refine ⟨exists_two_shared_run_iff, fun hnames ↦ exists_two_shared_run_iff.trans ?_⟩
  constructor
  · rintro ⟨v, v', hsub, hinvolves, hinvolves', -⟩
    exact ⟨v, v', hsub, hinvolves, hinvolves'⟩
  · rintro ⟨v, v', hsub, hinvolves, hinvolves'⟩
    have hne := List.pairwise_iff_forall_sublist.1 hnames hsub
    exact ⟨v, v', hsub, hinvolves, hinvolves', hne hinvolves hinvolves'⟩

/-! ## Workflows of one name in two folders -/

theorem ordered_workflow_macro :
    (Entry.folder [("D.yxmd", .file ⟨#[]⟩), ("M.yxmc", .file ⟨#[]⟩)]).Ordered :=
  Entry.ordered_folder_pair (by decide +kernel) _ _

/-- Two folders with two files each. -/
def sharingFiles : FileSystem :=
  ((FileSystem.empty []).put ["a"]
    (.folder [("D.yxmd", .file ⟨#[]⟩), ("E.yxmd", .file ⟨#[]⟩)])
    (Entry.ordered_folder_pair (by decide +kernel) _ _)).put ["b"]
    (.folder [("D.yxmd", .file ⟨#[]⟩), ("M.yxmc", .file ⟨#[]⟩)])
    ordered_workflow_macro

/-- A workflow that calls the macro. -/
def sharingCaller (name path : String) : Document :=
  Resolver.singleton name path (.call "1" (.named "M"))

/-- Three workflows, two of which have one name, call a macro. -/
def sharingPipeline : Pipeline Unit where
  resolver :=
    { files := sharingFiles
      load := fun path ↦
        if path.text = "/b/M.yxmc" then
          .ok (Resolver.singleton "M" path.text (.plain "1" .formula "f"))
        else if path.text = "/a/E.yxmd" then .ok (sharingCaller "E" path.text)
        else .ok (sharingCaller "D" path.text)
      options := ⟨.everywhere, 3⟩
      operator := .absent }
  config := .default ⟨"/"⟩

/-- The macro is in a search folder. -/
def sharingStart : Session Unit :=
  ⟨.start [⟨"/b"⟩], ()⟩

/-- The end of the expansion of a workflow. -/
def sharingEnd (d : Document) (s : Session Unit) : Progress Unit :=
  sharingPipeline.resolver.advance 3 (sharingPipeline.resolver.begin d s)

theorem resolve_sharing {d : Document} {s : Session Unit}
    (h : (sharingPipeline.resolver.step (sharingEnd d s)).isNone = true) :
    sharingPipeline.resolver.resolve d s =
      ((sharingEnd d s).current.outcome, (sharingEnd d s).session) :=
  Resolver.resolve_eq_of_advance rfl (Option.isNone_iff_eq_none.1 h)

theorem involves_sharing {v : Visit Unit} {d : Document}
    (hload : sharingPipeline.resolver.load v.path = .ok d)
    (hend : (sharingPipeline.resolver.step (sharingEnd d v.session)).isNone = true)
    (hused : ∃ u ∈ (sharingEnd d v.session).current.outcome.uses, u.reference.name = "M") :
    sharingPipeline.Involves "M" v := by
  refine ⟨(sharingPipeline.resolver.resolve d v.session).1, by rw [outcome, hload]; rfl, .inl ?_⟩
  rwa [resolve_sharing hend]

/-- The first workflow of the name that two of them have. -/
def sharingFirst : Visit Unit :=
  ⟨⟨"/a/D.yxmd"⟩, sharingStart⟩

/-- What is remembered after it. -/
def sharingAfter : Session Unit :=
  (sharingEnd (sharingCaller "D" "/a/D.yxmd") sharingStart).session

theorem involves_sharingFirst : sharingPipeline.Involves "M" sharingFirst :=
  involves_sharing (d := sharingCaller "D" "/a/D.yxmd") rfl (by decide +kernel) (by decide +kernel)

theorem visits_sharing (path : Path) :
    sharingPipeline.visits [⟨"/a/D.yxmd"⟩, path] sharingStart =
      [sharingFirst, ⟨path, sharingAfter⟩] := by
  have hafter : (sharingPipeline.resolver.resolve (sharingCaller "D" "/a/D.yxmd") sharingStart).2 =
      sharingAfter := by
    rw [resolve_sharing (by decide +kernel), sharingAfter]
  rw [visits, visits, visits, ← hafter]
  rfl

/-- The workflows of different names share the macro. -/
theorem run_shared_different :
    let visits := sharingPipeline.visits [⟨"/a/D.yxmd"⟩, ⟨"/a/E.yxmd"⟩] sharingStart
    visits.Pairwise (fun v v' ↦
      sharingPipeline.Involves "M" v → sharingPipeline.Involves "M" v' →
        sharingPipeline.workflow? v.path ≠ sharingPipeline.workflow? v'.path) ∧
      ∃ r ∈ (sharingPipeline.run [⟨"/a/D.yxmd"⟩, ⟨"/a/E.yxmd"⟩] sharingStart).1.inventory.shared,
        r.name = "M" := by
  intro visits
  have hvisits : visits = [sharingFirst, ⟨⟨"/a/E.yxmd"⟩, sharingAfter⟩] := visits_sharing _
  have hnames : visits.Pairwise (fun v v' ↦
      sharingPipeline.Involves "M" v → sharingPipeline.Involves "M" v' →
        sharingPipeline.workflow? v.path ≠ sharingPipeline.workflow? v'.path) := by
    rw [hvisits]
    exact List.pairwise_pair.2 fun _ _ ↦ by decide +kernel
  have hinvolves : sharingPipeline.Involves "M" ⟨⟨"/a/E.yxmd"⟩, sharingAfter⟩ :=
    involves_sharing (d := sharingCaller "E" "/a/E.yxmd") rfl (by decide +kernel)
      (by decide +kernel)
  refine ⟨hnames, ((sharingPipeline.run_shared _ sharingStart "M").2 hnames).2 ?_⟩
  exact ⟨_, _, by rw [← hvisits], involves_sharingFirst, hinvolves⟩

/-- The workflows of one name both call the macro, which is not listed. -/
theorem run_shared_namesakes :
    ∃ v v', sharingPipeline.visits [⟨"/a/D.yxmd"⟩, ⟨"/b/D.yxmd"⟩] sharingStart = [v, v'] ∧
      (v.path == v'.path) = false ∧
      sharingPipeline.Involves "M" v ∧ sharingPipeline.Involves "M" v' ∧
      ¬∃ r ∈ (sharingPipeline.run [⟨"/a/D.yxmd"⟩, ⟨"/b/D.yxmd"⟩] sharingStart).1.inventory.shared,
        r.name = "M" := by
  have hinvolves : sharingPipeline.Involves "M" ⟨⟨"/b/D.yxmd"⟩, sharingAfter⟩ :=
    involves_sharing (d := sharingCaller "D" "/b/D.yxmd") rfl (by decide +kernel)
      (by decide +kernel)
  refine ⟨_, _, visits_sharing _, by decide +kernel, involves_sharingFirst, hinvolves, ?_⟩
  rw [exists_shared_run_iff, visits_sharing]
  have hname : ∀ v ∈ [sharingFirst, ⟨⟨"/b/D.yxmd"⟩, sharingAfter⟩],
      sharingPipeline.workflow? v.path = some "D" := by
    intro v hv
    rcases List.mem_pair.1 hv with rfl | rfl <;> rfl
  rintro ⟨v, hv, v', hv', -, -, hne⟩
  exact hne ((hname v hv).trans (hname v' hv').symm)

end Pipeline

end Provenance
