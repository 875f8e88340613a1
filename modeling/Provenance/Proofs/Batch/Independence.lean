import Provenance.Proofs.Batch.Cycles
import Provenance.Proofs.Expansion.Refinement

/-!
# The files of a batch do not depend on each other

A memory that is shared by the files of a batch saves work and changes nothing: each file gives the
graph that it gives alone, or a failure of the same kind, and another order of the files only
reorders the results (`Pipeline.run_eq_flatMap`).

A document can tell the shared memory from a fresh one only if a cycle is in reach. If none is, the
plain recursion says what becomes of the document. If the document takes a cycle in, it is fatal
either way. What is left are cycles that are refused somewhere on the way, and there the order
matters: where the cycle was entered first decides whether a mark is inside the macro that is
refused (`isFatal_after_refused`).
-/

namespace Provenance

namespace Resolver

variable {σ : Type} {r : Resolver σ} {folders : List Path}

theorem Acyclic.anti {known known' : List Document} (hsub : known ⊆ known') {d : Document}
    (h : r.Acyclic folders known' d) : r.Acyclic folders known d where
  no_return first path hfirst hchain :=
    h.no_return first path hfirst (Relation.ReflTransGen.mono (leads_mono hsub) _ _ hchain)
  no_cycle path hcalls := (h.no_cycle path hcalls).anti hsub

/-- The end of a run for a document from which no chain of calls leads back is that of the plain
recursion. -/
theorem Acyclic.stage_resolve (hquiet : r.operator.isInteractive = false) {earlier : List Document}
    {s : Session σ} (hs : History (· = r) folders earlier s) {d : Document}
    (hd : r.Acyclic (Context.start folders).searchFolders earlier d) :
    r.Stage (Context.start folders).searchFolders d (r.resolve d s).1 [] := by
  obtain ⟨hmemory, hremembers⟩ := hs.quiet_remembers hquiet
  have hrun := refines_run hquiet (List.mem_cons_self (a := d)) hmemory
    (hremembers.mono (List.subset_cons_self d earlier))
  obtain ⟨root, hexpands, htracks⟩ := hrun.frames
  obtain ⟨hqueue, hcallers⟩ := run_done (r := r) (.start d (r.files.canonical d.path) s)
  rw [hcallers] at hexpands
  rw [hqueue] at htracks
  cases hexpands with
  | root => exact htracks hd.callsClean_cons

/-- What becomes of a document from which no chain of calls leads back does not depend on what was
resolved before. -/
theorem Acyclic.resolve_eq (hquiet : r.operator.isInteractive = false)
    {known earlier earlier' : List Document} {s s' : Session σ}
    (hs : History (· = r) folders earlier s) (hs' : History (· = r) folders earlier' s')
    (hsub : earlier ⊆ known) (hsub' : earlier' ⊆ known) {d : Document}
    (hd : r.Acyclic (Context.start folders).searchFolders known d) :
    (r.resolve d s).1 = (r.resolve d s').1 := by
  obtain ⟨depth, h⟩ := ((hd.anti hsub).stage_resolve hquiet hs).inline
  obtain ⟨depth', h'⟩ := ((hd.anti hsub').stage_resolve hquiet hs').inline
  exact inline?_unique h h'

end Resolver

namespace Pipeline

variable {σ : Type} (p : Pipeline σ)

/-- The documents in some files. -/
def documents (paths : List Path) : List Document :=
  paths.filterMap (fun path ↦ (p.resolver.load path).toOption)

/-- Each of some files takes in a cycle, or has no cycle in reach, also where the files of the
others are read as their documents. -/
def Decided (folders paths : List Path) : Prop :=
  ∀ path ∈ paths, ∀ d, p.resolver.load path = .ok d →
    p.resolver.LeadsBack (Context.start folders).searchFolders (fun _ ↦ False) d ∨
      p.resolver.Acyclic (Context.start folders).searchFolders (p.documents paths) d

variable {p}

theorem mem_documents {paths : List Path} {path : Path} {d : Document} (hpath : path ∈ paths)
    (hload : p.resolver.load path = .ok d) : d ∈ p.documents paths :=
  List.mem_filterMap.2 ⟨path, hpath, by rw [hload]; rfl⟩

theorem Decided.of_perm {folders paths paths' : List Path} (h : p.Decided folders paths)
    (hperm : paths.Perm paths') : p.Decided folders paths' := by
  intro path hpath d hload
  refine (h path (hperm.mem_iff.2 hpath) d hload).imp id fun hacyclic ↦ hacyclic.anti ?_
  exact (hperm.symm.filterMap _).subset

section

variable {folders paths : List Path} (hquiet : p.resolver.operator.isInteractive = false)
  (hcalls : ∀ file d, p.resolver.load file = .ok d → d.CallsOnly) (h : p.Decided folders paths)

include hquiet hcalls h

/-- A file gives the same after other files of the batch as alone. -/
theorem verdict_eq_alone {path : Path} (hpath : path ∈ paths) {earlier : List Document}
    {s : Session σ} (hs : Resolver.History (· = p.resolver) folders earlier s)
    (hearlier : earlier ⊆ p.documents paths) (operator : σ) :
    (p.verdict s path).toOption = (p.verdict ⟨.start folders, operator⟩ path).toOption ∧
      (failure? (p.verdict s path)).map Failure.brief =
        (failure? (p.verdict ⟨.start folders, operator⟩ path)).map Failure.brief := by
  cases hload : p.resolver.load path with
  | error e => simp [verdict, hload]
  | ok d =>
    have halone : Resolver.History (· = p.resolver) folders [] ⟨.start folders, operator⟩ :=
      .start operator
    rcases h path hpath d hload with hleads | hacyclic
    · have hfatal {earlier : List Document} {s : Session σ}
          (hs : Resolver.History (· = p.resolver) folders earlier s) :
          (p.resolver.resolve d s).1.isFatal :=
        hleads.isFatal_resolve hcalls hquiet (fun _ hnever ↦ hnever.elim)
          (hs.vigilance hcalls hquiet)
      obtain ⟨failure, hfile, hkind, hverdict⟩ := verdict_of_isFatal hload (hfatal hs)
      obtain ⟨failure', hfile', hkind', hverdict'⟩ := verdict_of_isFatal hload (hfatal halone)
      rw [hverdict, hverdict']
      simp [Except.toOption, failure?, Failure.brief, hfile, hkind, hfile', hkind']
    · have hsame := hacyclic.resolve_eq hquiet hs halone hearlier (List.nil_subset _)
      rw [verdict_of_load hload, verdict_of_load hload, hsame]
      exact ⟨rfl, rfl⟩

omit hquiet hcalls h in
/-- After a file has been taken in, the memory is that after one more document, or the same. -/
theorem history_process {earlier : List Document} {s : Session σ}
    (hs : Resolver.History (· = p.resolver) folders earlier s)
    (hearlier : earlier ⊆ p.documents paths) {path : Path} (hpath : path ∈ paths) (b : Batch) :
    ∃ earlier', Resolver.History (· = p.resolver) folders earlier' (p.process (b, s) path).2 ∧
      earlier' ⊆ p.documents paths := by
  cases hload : p.resolver.load path with
  | error e => exact ⟨earlier, by simpa [process, Resolver.resolveFile, hload] using hs, hearlier⟩
  | ok d =>
    rw [session_process_of_load hload]
    exact ⟨d :: earlier, .resolve hs rfl d,
      List.cons_subset.2 ⟨mem_documents hpath hload, hearlier⟩⟩

/-- Some files of the batch add what each of them gives alone. -/
theorem foldl_process (operator : σ) {rest : List Path} (hrest : rest ⊆ paths)
    {earlier : List Document} {s : Session σ}
    (hs : Resolver.History (· = p.resolver) folders earlier s)
    (hearlier : earlier ⊆ p.documents paths) (b : Batch) :
    (rest.foldl p.process (b, s)).1.graphs =
        b.graphs ++ rest.flatMap (fun path ↦
          (p.verdict ⟨.start folders, operator⟩ path).toOption.toList) ∧
      (rest.foldl p.process (b, s)).1.briefs =
        b.briefs ++ rest.flatMap (fun path ↦
          ((failure? (p.verdict ⟨.start folders, operator⟩ path)).map Failure.brief).toList) := by
  induction rest generalizing b s earlier with
  | nil => simp
  | cons path rest ih =>
    obtain ⟨hpath, hrest⟩ := List.cons_subset.1 hrest
    obtain ⟨earlier', hs', hearlier'⟩ := history_process hs hearlier hpath b
    obtain ⟨hgraph, hfailure⟩ := verdict_eq_alone hquiet hcalls h hpath hs hearlier operator
    obtain ⟨hgraphs, hbriefs⟩ := ih hrest hs' hearlier' (p.process (b, s) path).1
    rw [List.foldl_cons]
    constructor
    · rw [hgraphs, graphs_process, hgraph, List.flatMap_cons, List.append_assoc]
    · rw [hbriefs, briefs_process, hfailure, List.flatMap_cons, List.append_assoc]

/-- Each file of a batch gives the graph that it gives alone, or a failure of the same kind, and in
another order the files give the same in another order. -/
theorem run_eq_flatMap (operator : σ) :
    (p.run paths ⟨.start folders, operator⟩).1.graphs =
        paths.flatMap (fun path ↦ (p.run [path] ⟨.start folders, operator⟩).1.graphs) ∧
      (p.run paths ⟨.start folders, operator⟩).1.briefs =
        paths.flatMap (fun path ↦ (p.run [path] ⟨.start folders, operator⟩).1.briefs) ∧
      ∀ paths', paths.Perm paths' →
        (p.run paths ⟨.start folders, operator⟩).1.graphs.Perm
            (p.run paths' ⟨.start folders, operator⟩).1.graphs ∧
          (p.run paths ⟨.start folders, operator⟩).1.briefs.Perm
            (p.run paths' ⟨.start folders, operator⟩).1.briefs := by
  have hgraph (path : Path) : (p.run [path] ⟨.start folders, operator⟩).1.graphs =
      (p.verdict ⟨.start folders, operator⟩ path).toOption.toList :=
    (graphs_process p .empty _ path).trans (List.nil_append _)
  have hbrief (path : Path) : (p.run [path] ⟨.start folders, operator⟩).1.briefs =
      ((failure? (p.verdict ⟨.start folders, operator⟩ path)).map Failure.brief).toList :=
    (briefs_process p .empty _ path).trans (List.nil_append _)
  have hrun {order : List Path} (horder : p.Decided folders order) :
      (p.run order ⟨.start folders, operator⟩).1.graphs =
          order.flatMap (fun path ↦ (p.run [path] ⟨.start folders, operator⟩).1.graphs) ∧
        (p.run order ⟨.start folders, operator⟩).1.briefs =
          order.flatMap (fun path ↦ (p.run [path] ⟨.start folders, operator⟩).1.briefs) := by
    simp only [hgraph, hbrief]
    exact foldl_process hquiet hcalls horder operator (List.Subset.refl order) (.start operator)
      (List.nil_subset _) .empty
  refine ⟨(hrun h).1, (hrun h).2, fun paths' hperm ↦ ?_⟩
  obtain ⟨hgraphs, hbriefs⟩ := hrun (h.of_perm hperm)
  rw [(hrun h).1, (hrun h).2, hgraphs, hbriefs]
  exact ⟨hperm.flatMap_right _, hperm.flatMap_right _⟩

end

end Pipeline

namespace Resolver

/-! ## A batch that is decided, and one that is not -/

theorem acyclic_of_leaves {σ : Type} {r : Resolver σ} {folders : List Path} {known : List Document}
    {d : Document} (h : ∀ path, r.Calls folders d path →
      ¬(r.files.canonical d.path == path) ∧ ∀ next, ¬r.Leads folders known path next) :
    r.Acyclic folders known d where
  no_return first path hfirst hchain := by
    rcases hchain.cases_head with rfl | ⟨next, hleads, -⟩
    · exact (h first hfirst).1
    · exact absurd hleads ((h first hfirst).2 next)
  no_cycle first hfirst path hchain hcycle := by
    rcases hchain.cases_head with rfl | ⟨next, hleads, -⟩
    · obtain ⟨next, hleads, -⟩ := Relation.TransGen.head'_iff.1 hcycle
      exact (h first hfirst).2 next hleads
    · exact (h first hfirst).2 next hleads

/-- A document that calls `A`. -/
def cyclicCaller : Document := singleton "D" "/D.yxmd" (.call "1" (.named "A"))

/-- A document that calls `B`. -/
def plainCaller : Document := singleton "E" "/E.yxmd" (.call "1" (.named "B"))

/-- The file `A` calls itself, and the file `B` calls none. -/
def mixedResolver : Resolver Unit :=
  { ringResolver with
    load := fun path ↦
      if path.text = "/A.yxmc" then .ok (singleton "A" "/A.yxmc" (.call "1" (.named "A")))
      else if path.text = "/B.yxmc" then .ok (singleton "B" "/B.yxmc" (.plain "1" .formula "f"))
      else if path.text = "/D.yxmd" then .ok cyclicCaller
      else if path.text = "/E.yxmd" then .ok plainCaller
      else .error (.unsupported path) }

theorem callsOnly_mixed (file : Path) (d : Document) (h : mixedResolver.load file = .ok d) :
    d.CallsOnly := by
  dsimp only [mixedResolver] at h
  split at h
  · cases h
    exact callsOnly_singleton fun _ ↦ rfl
  · split at h
    · cases h
      exact callsOnly_singleton fun h ↦ by cases h
    · split at h
      · cases h
        exact callsOnly_singleton fun _ ↦ rfl
      · split at h
        · cases h
          exact callsOnly_singleton fun _ ↦ rfl
        · cases h

theorem leadsBack_mixed : mixedResolver.LeadsBack [] (fun _ ↦ False) cyclicCaller := by
  have hcaller : mixedResolver.locate? [] (.named "A") ⟨"/D.yxmd"⟩ = some ⟨"/A.yxmc"⟩ :=
    locate?_eq_of_text (by decide +kernel)
  have hself : mixedResolver.locate? [] (.named "A") ⟨"/A.yxmc"⟩ = some ⟨"/A.yxmc"⟩ :=
    locate?_eq_of_text (by decide +kernel)
  have hload : mixedResolver.load ⟨"/A.yxmc"⟩ =
      .ok (singleton "A" "/A.yxmc" (.call "1" (.named "A"))) := rfl
  have hring : mixedResolver.Joins [] ⟨"/A.yxmc"⟩ ⟨"/A.yxmc"⟩ :=
    ⟨_, hload, takes_singleton hself hload rfl⟩
  exact .inr ⟨_, takes_singleton hcaller hload rfl, _, .refl, .inl (.single hring)⟩

theorem acyclic_mixed : mixedResolver.Acyclic [] [cyclicCaller, plainCaller] plainCaller := by
  apply acyclic_of_leaves
  intro path hcalls
  have hpath : mixedResolver.locate? [] (.named "B") ⟨"/E.yxmd"⟩ = some ⟨"/B.yxmc"⟩ :=
    locate?_eq_of_text (by decide +kernel)
  obtain rfl := Option.some.inj (hpath.symm.trans (calls_singleton hcalls))
  have hother : ¬(mixedResolver.files.canonical cyclicCaller.path == ⟨"/B.yxmc"⟩) := by
    decide +kernel
  have hself : ¬(mixedResolver.files.canonical plainCaller.path == ⟨"/B.yxmc"⟩) := by
    decide +kernel
  refine ⟨hself, ?_⟩
  rintro next ⟨d, hload | ⟨hmem, hfile⟩, hnext⟩
  · cases hload
    exact not_calls_of_pending_eq_nil rfl hnext
  · rcases List.mem_cons.1 hmem with rfl | hmem
    · exact hother hfile
    · obtain rfl := List.mem_singleton.1 hmem
      exact hself hfile

end Resolver

namespace Pipeline

/-- The pipeline over these files. -/
def mixedPipeline : Pipeline Unit := ⟨Resolver.mixedResolver, .default ⟨"/"⟩⟩

/-- The documents and a file that there is none of. -/
def mixedPaths : List Path := [⟨"/D.yxmd"⟩, ⟨"/gone.yxmd"⟩, ⟨"/E.yxmd"⟩]

theorem decided_mixed : mixedPipeline.Decided [] mixedPaths := by
  intro path hpath d hload
  simp only [mixedPaths, List.mem_cons, List.not_mem_nil, or_false] at hpath
  rcases hpath with rfl | rfl | rfl
  · cases hload
    exact .inl Resolver.leadsBack_mixed
  · cases hload
  · cases hload
    exact .inr Resolver.acyclic_mixed

theorem run_eq_flatMap_mixed :
    mixedPipeline.resolver.operator.isInteractive = false ∧
      (∀ file d, mixedPipeline.resolver.load file = .ok d → d.CallsOnly) ∧
      mixedPipeline.Decided [] mixedPaths ∧
      (mixedPipeline.run mixedPaths ⟨.start [], ()⟩).1.graphs =
        mixedPaths.flatMap (fun path ↦ (mixedPipeline.run [path] ⟨.start [], ()⟩).1.graphs) ∧
      (mixedPipeline.run mixedPaths ⟨.start [], ()⟩).1.briefs =
        mixedPaths.flatMap (fun path ↦ (mixedPipeline.run [path] ⟨.start [], ()⟩).1.briefs) ∧
      ∀ paths', mixedPaths.Perm paths' →
        (mixedPipeline.run mixedPaths ⟨.start [], ()⟩).1.graphs.Perm
            (mixedPipeline.run paths' ⟨.start [], ()⟩).1.graphs ∧
          (mixedPipeline.run mixedPaths ⟨.start [], ()⟩).1.briefs.Perm
            (mixedPipeline.run paths' ⟨.start [], ()⟩).1.briefs :=
  ⟨rfl, Resolver.callsOnly_mixed, decided_mixed,
    run_eq_flatMap rfl Resolver.callsOnly_mixed decided_mixed ()⟩

end Pipeline

namespace Resolver

/-- A macro that calls `B`. -/
def innerMacro : Document := singleton "A" "/A.yxmc" (.call "1" (.named "B"))

/-- A macro with an input that calls `A`. -/
def outerMacro : Document where
  name := "B"
  path := ⟨"/B.yxmc"⟩
  description := none
  nodes := [.plain "1" .macroInput "in", .call "2" (.named "A")]
  connections := []

/-- A document that calls `B`, and feeds its input. -/
def feedingCaller : Document :=
  singleton "C" "/C.yxmd" { Node.call "1" (.named "B") with inputAnchors := ["Input"] }

/-- The files `A` and `B` call each other, the first of them without the anchors of the second. -/
def orderedResolver : Resolver Unit :=
  { ringResolver with
    load := fun path ↦
      if path.text = "/A.yxmc" then .ok innerMacro
      else if path.text = "/B.yxmc" then .ok outerMacro
      else .error (.unsupported path) }

/-- A document that calls `A` is fatal only if one that calls `B` was resolved before. -/
theorem isFatal_after_refused :
    (orderedResolver.resolve cyclicCaller ⟨.start [], ()⟩).1.isFatal = false ∧
      (orderedResolver.resolve cyclicCaller
        (orderedResolver.resolve feedingCaller ⟨.start [], ()⟩).2).1.isFatal = true := by
  have halone : orderedResolver.step (orderedResolver.advance 8
      (orderedResolver.begin cyclicCaller ⟨.start [], ()⟩)) = none :=
    Option.isNone_iff_eq_none.1 (by decide +kernel)
  have hfirst : orderedResolver.step (orderedResolver.advance 8
      (orderedResolver.begin feedingCaller ⟨.start [], ()⟩)) = none :=
    Option.isNone_iff_eq_none.1 (by decide +kernel)
  have hsecond : orderedResolver.step (orderedResolver.advance 8
      (orderedResolver.begin cyclicCaller (orderedResolver.advance 8
        (orderedResolver.begin feedingCaller ⟨.start [], ()⟩)).session)) = none :=
    Option.isNone_iff_eq_none.1 (by decide +kernel)
  have hsession : (orderedResolver.resolve feedingCaller ⟨.start [], ()⟩).2 =
      (orderedResolver.advance 8
        (orderedResolver.begin feedingCaller ⟨.start [], ()⟩)).session := by
    rw [resolve_eq_of_advance rfl hfirst]
    rfl
  rw [hsession, resolve_eq_of_advance rfl halone, resolve_eq_of_advance rfl hsecond]
  decide +kernel

end Resolver

end Provenance
