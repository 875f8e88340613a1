import Provenance.Proofs.Batch.Accounting
import Provenance.Proofs.Expansion.Uses

/-!
# What the inventory says of a macro

The record of a macro takes its path and anchors from the last use of its name in a batch, and its
fingerprint from the first one (`MacroRecord.Describes`). The expansions for both are in the memory
at the end, so a record describes one definition if these two uses have the same path
(`run_records`). Macros of one name in several folders share a record, in which the path of one may
stand with the fingerprint of another (`run_records_twins`).
-/

namespace Provenance

/-- The uses of macros of a name. -/
def usesOf (name : String) (uses : List Use) : List Use :=
  uses.filter (fun u ↦ u.reference.name = name)

theorem usesOf_append (name : String) (uses uses' : List Use) :
    usesOf name (uses ++ uses') = usesOf name uses ++ usesOf name uses' :=
  List.filter_append ..

/-- What a record says after some uses of its macro: the path and anchors of the last one, and the
fingerprint of what is known of the file of the first one. -/
structure MacroRecord.Describes (c : Context) (uses : List Use) (r : MacroRecord) : Prop where
  found : r.isFound = true ↔ uses ≠ []
  path : r.path = uses.getLast?.map Use.path
  inputs : r.inputs = (uses.getLast?.map Use.inputs).getD 0
  outputs : r.outputs = (uses.getLast?.map Use.outputs).getD 0
  fingerprint : r.fingerprint = uses.head?.bind (fun u ↦ Inventory.fingerprintOf? c u.path)

theorem Context.Backs.exists_fingerprint {c : Context} {u : Use} (h : c.Backs u) :
    ∃ d, c.expansion? u.path = some (.expanded d) ∧
      Inventory.fingerprintOf? c u.path = some d.document.fingerprint := by
  obtain ⟨d, hknown, -⟩ := h
  exact ⟨d, hknown, by rw [Inventory.fingerprintOf?, hknown]⟩

/-- A record says of its macro what the expansion that is remembered for its path is like. -/
def MacroRecord.IsOfOne (c : Context) (r : MacroRecord) : Prop :=
  ∃ path d, r.path = some path ∧ c.expansion? path = some (.expanded d) ∧
    r.inputs = d.document.anchorCount.inputs ∧ r.outputs = d.document.anchorCount.outputs ∧
    r.fingerprint = some d.document.fingerprint

theorem MacroRecord.IsOfOne.fingerprint_eq {c : Context} {r : MacroRecord} (h : r.IsOfOne c)
    {path : Path} (hpath : r.path = some path) :
    r.fingerprint = Inventory.fingerprintOf? c path := by
  obtain ⟨path', d, hpath', hknown, -, -, hfingerprint⟩ := h
  rw [hpath] at hpath'
  cases hpath'
  rw [hfingerprint, Inventory.fingerprintOf?, hknown]

namespace MacroRecord.Describes

variable {c c' : Context} {uses : List Use} {r : MacroRecord}

theorem of_bare (c : Context) (name : String) : (bare name .missing).Describes c [] :=
  ⟨iff_of_false Bool.false_ne_true (not_not_intro rfl), rfl, rfl, rfl, rfl⟩

/-- What is learned later does not change the fingerprint of an expansion. -/
theorem mono (h : r.Describes c uses) (hextends : c.Extends c') (hbacked : ∀ u ∈ uses, c.Backs u) :
    r.Describes c' uses := by
  refine ⟨h.found, h.path, h.inputs, h.outputs, ?_⟩
  rw [h.fingerprint]
  cases uses with
  | nil => rfl
  | cons u rest =>
    obtain ⟨d, hknown, hfingerprint⟩ := (hbacked u List.mem_cons_self).exists_fingerprint
    have hlater : Inventory.fingerprintOf? c' u.path = some d.document.fingerprint := by
      rw [Inventory.fingerprintOf?, hextends _ _ hknown]
    exact hfingerprint.trans hlater.symm

/-- A use sets the path and the anchors, and the fingerprint if it is the first one. -/
theorem use {workflow : String}
    (hfingerprint : r.fingerprint =
      uses.head?.bind (fun u ↦ Inventory.fingerprintOf? c u.path))
    (hbacked : ∀ u ∈ uses, c.Backs u) (u : Use) :
    (addUser workflow { r with
      status := .found
      path := some u.path
      inputs := u.inputs
      outputs := u.outputs
      fingerprint := r.fingerprint.or (Inventory.fingerprintOf? c u.path) }).Describes c
      (uses ++ [u]) := by
  refine ⟨iff_of_true rfl (List.concat_ne_nil _ _), ?_, ?_, ?_, ?_⟩
  · simp [addUser]
  · simp [addUser]
  · simp [addUser]
  · cases uses with
    | nil => simp [addUser, hfingerprint]
    | cons first rest =>
      obtain ⟨d, -, hfirst⟩ := (hbacked first List.mem_cons_self).exists_fingerprint
      simp [addUser, hfingerprint, hfirst]

/-- A call that could not be replaced changes nothing but the status of a macro that was not
found. -/
theorem issue (h : r.Describes c uses) (workflow : String) {status : Status}
    (hstatus : status ≠ .found) :
    (addUser workflow { r with status := if r.isFound then .found else status }).Describes c
      uses := by
  refine ⟨?_, h.path, h.inputs, h.outputs, h.fingerprint⟩
  rw [← h.found]
  cases hfound : r.isFound <;> simp [addUser, isFound, hstatus]

section

variable (h : r.Describes c uses) (hbacked : ∀ u ∈ uses, c.Backs u) (hstatus : r.status = .found)

include h hbacked hstatus

/-- The path and the anchors of a macro that was found are those of a remembered expansion. -/
theorem exists_last : ∃ last d, uses.getLast? = some last ∧ r.path = some last.path ∧
    c.expansion? last.path = some (.expanded d) ∧
    r.inputs = d.document.anchorCount.inputs ∧ r.outputs = d.document.anchorCount.outputs := by
  have hne : uses ≠ [] := h.found.1 (decide_eq_true hstatus)
  have hlast : uses.getLast? = some (uses.getLast hne) := List.getLast?_eq_some_getLast hne
  obtain ⟨d, hknown, hanchors⟩ := hbacked _ (List.getLast_mem hne)
  refine ⟨_, d, hlast, ?_, hknown, ?_, ?_⟩
  · rw [h.path, hlast, Option.map_some]
  · rw [h.inputs, hlast, hanchors, Option.map_some, Option.getD_some]
  · rw [h.outputs, hlast, hanchors, Option.map_some, Option.getD_some]

/-- The fingerprint of a macro that was found is that of a remembered expansion. -/
theorem exists_first : ∃ first d, uses.head? = some first ∧
    c.expansion? first.path = some (.expanded d) ∧
    r.fingerprint = some d.document.fingerprint := by
  have hne : uses ≠ [] := h.found.1 (decide_eq_true hstatus)
  have hfirst : uses.head? = some (uses.head hne) := List.head?_eq_some_head hne
  obtain ⟨d, hknown, hfingerprint⟩ := (hbacked _ (List.head_mem hne)).exists_fingerprint
  refine ⟨_, d, hfirst, hknown, ?_⟩
  rw [h.fingerprint, hfirst, Option.bind_some, hfingerprint]

end

end MacroRecord.Describes

theorem Status.ofGap_ne_found (gap : Gap) : ofGap gap ≠ .found := by
  cases gap <;> exact Status.noConfusion

namespace Inventory

/-- The record of a macro, which may have none yet. -/
def getD (i : Inventory) (name : String) : MacroRecord :=
  (i.get? name).getD (.bare name .missing)

/-- Records are listed by name, and each describes the uses of its name. -/
structure Describes (c : Context) (uses : List Use) (i : Inventory) : Prop where
  ordered : Table.Ordered i.macros
  name : ∀ name, (i.getD name).name = name
  each : ∀ name, (i.getD name).Describes c (usesOf name uses)

theorem getD_update (i : Inventory) (name name' : String) (status : Status)
    (f : MacroRecord → MacroRecord) :
    (i.update name status f).getD name' =
      if name = name' then f ((i.get? name).getD (.bare name status)) else i.getD name' := by
  rw [getD, get?, update, Table.find?_insert]
  split <;> rfl

theorem getD_recordUse (workflow : String) (c : Context) (i : Inventory) (u : Use)
    (name : String) :
    (i.recordUse workflow c u).getD name =
      if u.reference.name = name then
        MacroRecord.addUser workflow { i.getD name with
          status := .found
          path := some u.path
          inputs := u.inputs
          outputs := u.outputs
          fingerprint := (i.getD name).fingerprint.or (fingerprintOf? c u.path) }
      else i.getD name := by
  rw [recordUse, getD_update]
  split
  · rename_i heq
    subst heq
    rw [getD]
    cases i.get? u.reference.name <;> rfl
  · rfl

theorem getD_recordIssue (workflow : String) (i : Inventory) (issue : Issue) (name : String) :
    (i.recordIssue workflow issue).getD name =
      if issue.reference.name = name then
        MacroRecord.addUser workflow { i.getD name with
          status := if (i.getD name).isFound then .found else .ofGap issue.gap }
      else i.getD name := by
  rw [recordIssue, getD_update]
  split
  · rename_i heq
    subst heq
    rw [getD]
    cases i.get? issue.reference.name with
    | none => cases issue.gap <;> rfl
    | some r => rfl
  · rfl

theorem describes_empty (c : Context) : empty.Describes c [] :=
  ⟨.nil, fun _ ↦ rfl, fun name ↦ .of_bare c name⟩

namespace Describes

variable {c c' : Context} {uses : List Use} {i : Inventory}

theorem mono (h : i.Describes c uses) (hextends : c.Extends c')
    (hbacked : ∀ u ∈ uses, c.Backs u) : i.Describes c' uses :=
  ⟨h.ordered, h.name, fun name ↦ (h.each name).mono hextends fun u hu ↦
    hbacked u (List.mem_of_mem_filter hu)⟩

theorem recordUse (h : i.Describes c uses) (hbacked : ∀ u ∈ uses, c.Backs u) (workflow : String)
    (u : Use) : (i.recordUse workflow c u).Describes c (uses ++ [u]) := by
  refine ⟨h.ordered.insert _ _, fun name ↦ ?_, fun name ↦ ?_⟩ <;> rw [getD_recordUse]
  · split <;> exact h.name name
  · rw [usesOf_append]
    split
    · rename_i heq
      have hone : usesOf name [u] = [u] := by simp [usesOf, heq]
      rw [hone]
      exact .use (h.each name).fingerprint
        (fun v hv ↦ hbacked v (List.mem_of_mem_filter hv)) u
    · rename_i hne
      have hnone : usesOf name [u] = [] := by simp [usesOf, hne]
      rw [hnone, List.append_nil]
      exact h.each name

theorem recordIssue (h : i.Describes c uses) (workflow : String) (issue : Issue) :
    (i.recordIssue workflow issue).Describes c uses := by
  refine ⟨h.ordered.insert _ _, fun name ↦ ?_, fun name ↦ ?_⟩ <;> rw [getD_recordIssue] <;> split
  · exact h.name name
  · exact h.name name
  · exact (h.each name).issue workflow (Status.ofGap_ne_found issue.gap)
  · exact h.each name

/-- A workflow adds its uses. -/
theorem record (h : i.Describes c uses) (workflow : String) {o : Outcome}
    (hbacked : ∀ u ∈ uses ++ o.uses, c.Backs u) :
    (i.record workflow o c).Describes c (uses ++ o.uses) := by
  have huses (rest : List Use) {i : Inventory} {before : List Use} (h : i.Describes c before)
      (hbacked : ∀ u ∈ before ++ rest, c.Backs u) :
      (rest.foldl (Inventory.recordUse workflow c) i).Describes c (before ++ rest) := by
    induction rest generalizing i before with
    | nil => rwa [List.append_nil]
    | cons u rest ih =>
      rw [List.append_cons] at hbacked ⊢
      exact ih (h.recordUse (fun v hv ↦ hbacked v (by simp [hv])) workflow u) hbacked
  have hissues (issues : List Issue) {i : Inventory} {uses : List Use} (h : i.Describes c uses) :
      (issues.foldl (Inventory.recordIssue workflow) i).Describes c uses := by
    induction issues generalizing i with
    | nil => exact h
    | cons issue rest ih => exact ih (h.recordIssue workflow issue)
  exact hissues _ (huses _ h hbacked)

end Describes

end Inventory

namespace Pipeline

variable {σ : Type} (p : Pipeline σ)

/-- The macros that are used in a file. -/
def uses (v : Visit σ) : List Use :=
  match p.outcome v with
  | .error _ => []
  | .ok o => o.uses

variable {p} in
theorem inventory_process_of_load {b : Batch} {s : Session σ} {path : Path} {d : Document}
    (hload : p.resolver.load path = .ok d) :
    (p.process (b, s) path).1.inventory =
      b.inventory.record (p.resolver.resolve d s).1.document.name (p.resolver.resolve d s).1
        (p.resolver.resolve d s).2.context := by
  simp only [process, Resolver.resolveFile, hload, Batch.addOutcome]
  exact (Batch.addDocument_eq ..).2.2

/-- The inventory of a batch describes the macros that were used in some files, and the memory
holds them. -/
structure Tallies (visits : List (Visit σ)) (b : Batch) (c : Context) : Prop where
  consistent : c.Consistent
  backed : ∀ u ∈ visits.flatMap p.uses, c.Backs u
  inventory : b.inventory.Describes c (visits.flatMap p.uses)

namespace Tallies

variable {p} {visits : List (Visit σ)} {b : Batch}

/-- Every file adds its uses. -/
theorem process {v : Visit σ} (h : p.Tallies visits b v.session.context) :
    p.Tallies (visits ++ [v]) (p.process (b, v.session) v.path).1
      (p.process (b, v.session) v.path).2.context := by
  have huses : (visits ++ [v]).flatMap p.uses = visits.flatMap p.uses ++ p.uses v := by
    rw [List.flatMap_append, List.flatMap_singleton]
  cases hload : p.resolver.load v.path with
  | error e =>
    have hnone : p.uses v = [] := by simp [uses, outcome, hload, Except.map]
    rw [hnone, List.append_nil] at huses
    simp only [Pipeline.process, Resolver.resolveFile, hload]
    exact ⟨h.consistent, huses ▸ h.backed, huses ▸ h.inventory⟩
  | ok d =>
    have hsome : p.uses v = (p.resolver.resolve d v.session).1.uses := by
      simp [uses, outcome, hload, Except.map]
    obtain ⟨hconsistent, hbacked⟩ := p.resolver.backs_resolve d h.consistent
    have hextends := p.resolver.extends_resolve d v.session
    have hall : ∀ u ∈ visits.flatMap p.uses ++ (p.resolver.resolve d v.session).1.uses,
        (p.resolver.resolve d v.session).2.context.Backs u := by
      intro u hu
      rcases List.mem_append.1 hu with hu | hu
      · exact (h.backed u hu).mono hextends
      · exact hbacked u hu
    rw [session_process_of_load hload]
    refine ⟨hconsistent, ?_, ?_⟩ <;> rw [huses, hsome]
    · exact hall
    · rw [inventory_process_of_load hload]
      exact (h.inventory.mono hextends h.backed).record _ hall

theorem foldl (paths : List Path) {s : Session σ} (h : p.Tallies visits b s.context) :
    p.Tallies (visits ++ p.visits paths s) (paths.foldl p.process (b, s)).1
      (paths.foldl p.process (b, s)).2.context := by
  induction paths generalizing visits b s with
  | nil => simpa [Pipeline.visits] using h
  | cons path rest ih =>
    rw [Pipeline.visits, ← p.session_process b s path, List.append_cons]
    exact ih (process (v := ⟨path, s⟩) h)

end Tallies

theorem tallies_run {folders : List Path} {earlier : List Document} {s : Session σ}
    (hs : Resolver.History (fun _ ↦ True) folders earlier s) (paths : List Path) :
    p.Tallies (p.visits paths s) (p.run paths s).1 (p.run paths s).2.context := by
  have hempty : p.Tallies [] .empty s.context :=
    ⟨hs.consistent, fun _ ↦ nofun, Inventory.describes_empty _⟩
  exact hempty.foldl paths

/-- The record of a macro that was found has the path and the anchors of the last use of its name,
and the fingerprint of the first one, and what they name is in the memory. So it describes one
definition if both uses have the same path. -/
theorem run_records {folders : List Path} {earlier : List Document} {s : Session σ}
    (hs : Resolver.History (fun _ ↦ True) folders earlier s) (paths : List Path) :
    let calls := (p.visits paths s).flatMap p.uses
    let context := (p.run paths s).2.context
    ∀ r ∈ (p.run paths s).1.inventory.records, r.status = .found →
      ∃ first last d d', (usesOf r.name calls).head? = some first ∧
        (usesOf r.name calls).getLast? = some last ∧
        r.path = some last.path ∧ context.expansion? last.path = some (.expanded d) ∧
        r.inputs = d.document.anchorCount.inputs ∧ r.outputs = d.document.anchorCount.outputs ∧
        context.expansion? first.path = some (.expanded d') ∧
        r.fingerprint = some d'.document.fingerprint ∧
        (first.path == last.path → r.IsOfOne context) := by
  intro calls context r hr hstatus
  obtain ⟨-, hbacked, hinventory⟩ := p.tallies_run hs paths
  obtain ⟨⟨name, r'⟩, hentry, rfl⟩ := List.mem_map.1 hr
  have hget : (p.run paths s).1.inventory.getD name = r' := by
    rw [Inventory.getD, Inventory.get?, hinventory.ordered.find?_eq_some hentry]
    rfl
  have hname : r'.name = name := hget ▸ hinventory.name name
  have hdescribes : r'.Describes context (usesOf name calls) := hget ▸ hinventory.each name
  have hcalls : ∀ u ∈ usesOf name calls, context.Backs u :=
    fun u hu ↦ hbacked u (List.mem_of_mem_filter hu)
  obtain ⟨last, d, hlast, hpath, hknown, hinputs, houtputs⟩ := hdescribes.exists_last hcalls hstatus
  obtain ⟨first, d', hfirst, hknown', hfingerprint⟩ := hdescribes.exists_first hcalls hstatus
  refine ⟨first, last, d, d', by rwa [hname], by rwa [hname], hpath, hknown, hinputs, houtputs,
    hknown', hfingerprint, fun heq ↦ ?_⟩
  rw [Context.expansion?_eq_of_beq heq, hknown] at hknown'
  cases hknown'
  exact ⟨_, d, hpath, hknown, hinputs, houtputs, hfingerprint⟩

/-! ## Macros of one name in two folders -/

/-- Two folders with a workflow and a macro in each. -/
def twinFiles : FileSystem :=
  ((FileSystem.empty []).put ["a"]
    (.folder [("D.yxmd", .file ⟨#[]⟩), ("M.yxmc", .file ⟨#[]⟩)])
    (Entry.ordered_folder_pair (by decide +kernel) _ _)).put ["b"]
    (.folder [("D.yxmd", .file ⟨#[]⟩), ("M.yxmc", .file ⟨#[]⟩)])
    (Entry.ordered_folder_pair (by decide +kernel) _ _)

/-- Each workflow calls the macro in its own folder. -/
def twinPipeline : Pipeline Unit where
  resolver :=
    { files := twinFiles
      load := fun path ↦
        if path.text = "/a/M.yxmc" then
          .ok (Resolver.singleton "M" path.text (.plain "1" .formula "f"))
        else if path.text = "/b/M.yxmc" then
          .ok (Resolver.singleton "M" path.text (.plain "1" .filter "f"))
        else .ok (Resolver.singleton "D" path.text (.call "1" (.named "M")))
      options := ⟨.everywhere, 3⟩
      operator := .absent }
  config := .default ⟨"/"⟩

/-- The workflow in a folder. -/
def twinCaller (path : String) : Document :=
  Resolver.singleton "D" path (.call "1" (.named "M"))

/-- The end of the expansion of the first workflow. -/
def twinFirst : Progress Unit :=
  twinPipeline.resolver.advance 3
    (twinPipeline.resolver.begin (twinCaller "/a/D.yxmd") ⟨.start [], ()⟩)

/-- The end of the expansion of the second one. -/
def twinSecond : Progress Unit :=
  twinPipeline.resolver.advance 3
    (twinPipeline.resolver.begin (twinCaller "/b/D.yxmd") twinFirst.session)

/-- The inventory of a batch of the first workflow. -/
def twinInventory : Inventory :=
  Inventory.empty.record "D" twinFirst.current.outcome twinFirst.session.context

theorem resolve_twinFirst :
    twinPipeline.resolver.resolve (twinCaller "/a/D.yxmd") ⟨.start [], ()⟩ =
      (twinFirst.current.outcome, twinFirst.session) :=
  Resolver.resolve_eq_of_advance rfl (Option.isNone_iff_eq_none.1 (by decide +kernel))

theorem run_twinFirst :
    (twinPipeline.run [⟨"/a/D.yxmd"⟩] ⟨.start [], ()⟩).1.inventory = twinInventory ∧
      (twinPipeline.run [⟨"/a/D.yxmd"⟩] ⟨.start [], ()⟩).2 = twinFirst.session := by
  have hload : twinPipeline.resolver.load ⟨"/a/D.yxmd"⟩ = .ok (twinCaller "/a/D.yxmd") := rfl
  have hname : twinFirst.current.outcome.document.name = "D" := by decide +kernel
  have hinventory := inventory_process_of_load (b := .empty) (s := ⟨.start [], ()⟩) hload
  have hsession := session_process_of_load (b := .empty) (s := ⟨.start [], ()⟩) hload
  rw [resolve_twinFirst] at hinventory hsession
  rw [hname] at hinventory
  exact ⟨hinventory, hsession⟩

/-- The first workflow alone uses one macro once. -/
theorem run_records_twin :
    Resolver.History (fun _ ↦ True) [] [] (⟨.start [], ()⟩ : Session Unit) ∧
      ∃ r ∈ (twinPipeline.run [⟨"/a/D.yxmd"⟩] ⟨.start [], ()⟩).1.inventory.records,
        r.status = .found ∧
          r.IsOfOne (twinPipeline.run [⟨"/a/D.yxmd"⟩] ⟨.start [], ()⟩).2.context := by
  have hs : Resolver.History (fun _ ↦ True) [] [] (⟨.start [], ()⟩ : Session Unit) := .start ()
  have hrecord : ∃ r ∈ twinInventory.records, r.status = .found := by decide +kernel
  rw [← run_twinFirst.1] at hrecord
  obtain ⟨r, hr, hstatus⟩ := hrecord
  have hcalls : (twinPipeline.visits [⟨"/a/D.yxmd"⟩] ⟨.start [], ()⟩).flatMap twinPipeline.uses =
      twinFirst.current.outcome.uses := by
    have houtcome : twinPipeline.outcome ⟨⟨"/a/D.yxmd"⟩, ⟨.start [], ()⟩⟩ =
        .ok (twinPipeline.resolver.resolve (twinCaller "/a/D.yxmd") ⟨.start [], ()⟩).1 := rfl
    rw [resolve_twinFirst] at houtcome
    rw [visits, visits, List.flatMap_singleton, uses, houtcome]
  have hone : twinFirst.current.outcome.uses.length = 1 := by decide +kernel
  obtain ⟨u, hu⟩ := List.length_eq_one_iff.1 hone
  obtain ⟨first, last, d, d', hfirst, hlast, -, -, -, -, -, -, hsame⟩ :=
    twinPipeline.run_records hs [⟨"/a/D.yxmd"⟩] r hr hstatus
  rw [hcalls, hu] at hfirst hlast
  have honly {v : Use} (hv : v ∈ usesOf r.name [u]) : v = u :=
    List.mem_singleton.1 (List.mem_of_mem_filter hv)
  obtain rfl := honly (List.mem_of_mem_head? hfirst)
  obtain rfl := honly (List.mem_of_getLast? hlast)
  exact ⟨hs, r, hr, hstatus, hsame BEq.rfl⟩

theorem run_twinSecond :
    (twinPipeline.run [⟨"/a/D.yxmd"⟩, ⟨"/b/D.yxmd"⟩] ⟨.start [], ()⟩).1.inventory =
        twinInventory.record "D" twinSecond.current.outcome twinSecond.session.context ∧
      (twinPipeline.run [⟨"/a/D.yxmd"⟩, ⟨"/b/D.yxmd"⟩] ⟨.start [], ()⟩).2 =
        twinSecond.session := by
  have hload : twinPipeline.resolver.load ⟨"/b/D.yxmd"⟩ = .ok (twinCaller "/b/D.yxmd") := rfl
  have hend : twinPipeline.resolver.resolve (twinCaller "/b/D.yxmd") twinFirst.session =
      (twinSecond.current.outcome, twinSecond.session) :=
    Resolver.resolve_eq_of_advance rfl (Option.isNone_iff_eq_none.1 (by decide +kernel))
  have hname : twinSecond.current.outcome.document.name = "D" := by decide +kernel
  obtain ⟨hfirst, hmemory⟩ := run_twinFirst
  let b := (twinPipeline.run [⟨"/a/D.yxmd"⟩] ⟨.start [], ()⟩).1
  have hrun : twinPipeline.run [⟨"/a/D.yxmd"⟩, ⟨"/b/D.yxmd"⟩] ⟨.start [], ()⟩ =
      twinPipeline.process (b, twinFirst.session) ⟨"/b/D.yxmd"⟩ := by
    rw [← hmemory]
    rfl
  have hinventory := inventory_process_of_load (b := b) (s := twinFirst.session) hload
  have hsession := session_process_of_load (b := b) (s := twinFirst.session) hload
  rw [hend] at hinventory hsession
  rw [hname, hfirst] at hinventory
  rw [hrun]
  exact ⟨hinventory, hsession⟩

/-- The record for both macros has the path of the second one and the fingerprint of the first
one. -/
theorem run_records_twins :
    ∃ r ∈ (twinPipeline.run [⟨"/a/D.yxmd"⟩, ⟨"/b/D.yxmd"⟩] ⟨.start [], ()⟩).1.inventory.records,
      r.status = .found ∧
        ¬r.IsOfOne (twinPipeline.run [⟨"/a/D.yxmd"⟩, ⟨"/b/D.yxmd"⟩]
          ⟨.start [], ()⟩).2.context := by
  obtain ⟨hinventory, hsession⟩ := run_twinSecond
  have hrecord : ∃ r ∈ (twinInventory.record "D" twinSecond.current.outcome
      twinSecond.session.context).records, r.status = .found ∧
        r.path.map Path.text = some "/b/M.yxmc" ∧
        r.fingerprint ≠ Inventory.fingerprintOf? twinSecond.session.context ⟨"/b/M.yxmc"⟩ := by
    decide +kernel
  obtain ⟨r, hr, hstatus, htext, hne⟩ := hrecord
  have hpath : r.path = some ⟨"/b/M.yxmc"⟩ := by
    obtain ⟨⟨text⟩, hpath, rfl⟩ := Option.map_eq_some_iff.1 htext
    exact hpath
  rw [hinventory, hsession]
  exact ⟨r, hr, hstatus, fun hone ↦ hne (hone.fingerprint_eq hpath)⟩

end Pipeline

end Provenance
