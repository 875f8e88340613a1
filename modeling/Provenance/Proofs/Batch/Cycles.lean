import Provenance.Proofs.Batch.Verdict
import Provenance.Proofs.Expansion.Cycles
import Provenance.Proofs.Expansion.Once

/-!
# Cyclic files give failures

A file whose calls lead back gives a failure and no graph, as long as the macros on the way have the
anchors of their calls. Without this a cycle can go unnoticed: a macro that is refused takes the
marks inside of it along (`not_isFatal_refused`).
-/

open Relation

namespace Provenance

namespace Pipeline

variable {σ : Type} {p : Pipeline σ}

theorem verdict_of_isFatal {s : Session σ} {path : Path} {d : Document}
    (hload : p.resolver.load path = .ok d) (h : (p.resolver.resolve d s).1.isFatal) :
    ∃ failure, failure.path = path ∧ failure.kind = .cyclicMacro ∧
      p.verdict s path = .error failure := by
  rw [verdict_of_load hload, Outcome.verdict, if_pos h]
  exact ⟨_, rfl, rfl, rfl⟩

/-- In the documents from a file system only calls have references. -/
theorem callsOnly_ofConfig (fs : FileSystem) (operator : Operator σ) (config : Config) (file : Path)
    (d : Document) (h : (ofConfig fs operator config).resolver.load file = .ok d) :
    d.CallsOnly := by
  simp only [ofConfig] at h
  exact Document.callsOnly_of_load h

/-- A document that leads to a cycle of files, or back to its own file, is fatal if nothing was
remembered before, and the file that it comes from gives a failure. -/
theorem process_of_leadsBack (hquiet : p.resolver.operator.isInteractive = false)
    (hcalls : ∀ file d, p.resolver.load file = .ok d → d.CallsOnly) (folders : List Path)
    (operator : σ) {d : Document}
    (hd : p.resolver.LeadsBack (Context.start folders).searchFolders
      (fun path ↦ p.resolver.files.canonical d.path == path) d) :
    (p.resolver.resolve d ⟨.start folders, operator⟩).1.isFatal ∧
      ∀ path, p.resolver.load path = .ok d → ∀ b,
        (p.process (b, ⟨.start folders, operator⟩) path).1.graphs = b.graphs ∧
          ∃ failure, failure.path = path ∧ failure.kind = .cyclicMacro ∧
            (p.process (b, ⟨.start folders, operator⟩) path).1.failures =
              b.failures ++ [failure] := by
  have hfatal := hd.isFatal_resolve hcalls hquiet (fun _ h ↦ h)
    (Resolver.memory_vigilance_start folders operator)
  refine ⟨hfatal, fun path hload b ↦ ?_⟩
  obtain ⟨failure, hpath, hkind, hverdict⟩ := verdict_of_isFatal hload hfatal
  rw [graphs_process, failures_process, hverdict]
  exact ⟨List.append_nil _, failure, hpath, hkind, rfl⟩

end Pipeline

/-! ## A cycle that is noticed, and one that is not -/

namespace Resolver

section

variable {σ : Type} {r : Resolver σ} {folders : List Path} {reference : Reference}

theorem locate?_eq_of_text {document : Path} {text : String}
    (h : (r.locate? folders reference document).map Path.text = some text) :
    r.locate? folders reference document = some ⟨text⟩ := by
  obtain ⟨path, hpath, rfl⟩ := Option.map_eq_some_iff.1 h
  exact hpath

theorem callsOnly_singleton {name text : String} {n : Node}
    (h : n.reference.isSome → n.category = .macroCall) : (singleton name text n).CallsOnly := by
  intro m hm
  obtain rfl := List.mem_singleton.1 hm
  exact h

theorem refers_singleton {name text : String} {path : Path}
    (h : r.locate? folders reference ⟨text⟩ = some path) :
    r.Refers folders (singleton name text (.call "1" reference)) (.call "1" reference) path := by
  refine ⟨⟨?_, rfl, fun m hm id ↦ ?_⟩, reference, rfl, h⟩
  · simp [singleton, Document.node?, Node.call, Node.plain]
  · obtain rfl := List.mem_singleton.1 (List.mem_filter.1 hm).1
    exact Splice.inner_ne _ id

/-- A call without anchors takes in a macro without a boundary. -/
theorem takes_singleton {name text : String} {path : Path} {d : Document}
    (h : r.locate? folders reference ⟨text⟩ = some path) (hload : r.load path = .ok d)
    (hd : d.anchorCount = ⟨0, 0⟩) :
    r.Takes folders (singleton name text (.call "1" reference)) path :=
  ⟨_, d, refers_singleton h, hload, hd.symm⟩

end

/-- The files `A` and `B` call each other, and the file `D` calls `B`. -/
def chaseResolver : Resolver Unit :=
  { ringResolver with
    load := fun path ↦
      if path.text = "/D.yxmd" then .ok pairCaller else ringResolver.load path }

theorem leadsBack_chase (back : Path → Prop) : chaseResolver.LeadsBack [] back pairCaller := by
  have hcaller : chaseResolver.locate? [] (.named "B") ⟨"/D.yxmd"⟩ = some ⟨"/B.yxmc"⟩ :=
    locate?_eq_of_text (by decide +kernel)
  have hA : chaseResolver.locate? [] (.named "B") ⟨"/A.yxmc"⟩ = some ⟨"/B.yxmc"⟩ :=
    locate?_eq_of_text (by decide +kernel)
  have hB : chaseResolver.locate? [] (.named "A") ⟨"/B.yxmc"⟩ = some ⟨"/A.yxmc"⟩ :=
    locate?_eq_of_text (by decide +kernel)
  have hloadA : chaseResolver.load ⟨"/A.yxmc"⟩ =
      .ok (singleton "A" "/A.yxmc" (.call "1" (.named "B"))) := rfl
  have hloadB : chaseResolver.load ⟨"/B.yxmc"⟩ =
      .ok (singleton "B" "/B.yxmc" (.call "1" (.named "A"))) := rfl
  have hring : TransGen (chaseResolver.Joins []) ⟨"/B.yxmc"⟩ ⟨"/B.yxmc"⟩ :=
    .tail (.single ⟨_, hloadB, takes_singleton hB hloadA rfl⟩)
      ⟨_, hloadA, takes_singleton hA hloadB rfl⟩
  exact .inr ⟨_, takes_singleton hcaller hloadB rfl, _, .refl, .inl hring⟩

theorem callsOnly_chase (file : Path) (d : Document) (h : chaseResolver.load file = .ok d) :
    d.CallsOnly := by
  dsimp only [chaseResolver, ringResolver] at h
  split at h
  · cases h
    exact callsOnly_singleton fun _ ↦ rfl
  · split at h
    · cases h
      exact callsOnly_singleton fun _ ↦ rfl
    · split at h
      · cases h
        exact callsOnly_singleton fun _ ↦ rfl
      · cases h

end Resolver

namespace Pipeline

/-- The pipeline over these files. -/
def chasePipeline : Pipeline Unit := ⟨Resolver.chaseResolver, .default ⟨"/"⟩⟩

theorem process_of_leadsBack_chase :
    chasePipeline.resolver.operator.isInteractive = false ∧
      (∀ file d, chasePipeline.resolver.load file = .ok d → d.CallsOnly) ∧
      chasePipeline.resolver.LeadsBack (Context.start []).searchFolders
        (fun path ↦ chasePipeline.resolver.files.canonical Resolver.pairCaller.path == path)
        Resolver.pairCaller ∧
      (chasePipeline.resolver.resolve Resolver.pairCaller ⟨.start [], ()⟩).1.isFatal ∧
      chasePipeline.resolver.load ⟨"/D.yxmd"⟩ = .ok Resolver.pairCaller ∧
      (chasePipeline.process (.empty, ⟨.start [], ()⟩) ⟨"/D.yxmd"⟩).1.graphs = [] ∧
      ∃ failure, failure.path = ⟨"/D.yxmd"⟩ ∧ failure.kind = .cyclicMacro ∧
        (chasePipeline.process (.empty, ⟨.start [], ()⟩) ⟨"/D.yxmd"⟩).1.failures =
          [] ++ [failure] := by
  have hd := Resolver.leadsBack_chase
    fun path ↦ chasePipeline.resolver.files.canonical Resolver.pairCaller.path == path
  have hload : chasePipeline.resolver.load ⟨"/D.yxmd"⟩ = .ok Resolver.pairCaller := rfl
  have hprocess := process_of_leadsBack (p := chasePipeline) rfl Resolver.callsOnly_chase [] () hd
  exact ⟨rfl, Resolver.callsOnly_chase, hd, hprocess.1, hload, hprocess.2 _ hload .empty⟩

end Pipeline

namespace Resolver

/-- A macro that calls itself, and has an input that no call of it here has. -/
def refusedMacro : Document where
  name := "A"
  path := ⟨"/A.yxmc"⟩
  description := none
  nodes := [.plain "1" .macroInput "in", .call "2" (.named "A")]
  connections := []

/-- The files for it. -/
def refusedResolver : Resolver Unit :=
  { ringResolver with
    load := fun path ↦
      if path.text = "/A.yxmc" then .ok refusedMacro else .error (.unsupported path) }

/-- A document that calls the macro. -/
def refusedCaller : Document := singleton "D" "/D.yxmd" (.call "1" (.named "A"))

/-- A document calls a file that calls itself, and is not fatal: the macro is refused. -/
theorem not_isFatal_refused :
    refusedResolver.locate? [] (.named "A") refusedCaller.path = some ⟨"/A.yxmc"⟩ ∧
      refusedResolver.load ⟨"/A.yxmc"⟩ = .ok refusedMacro ∧
      refusedResolver.locate? [] (.named "A") refusedMacro.path = some ⟨"/A.yxmc"⟩ ∧
      (refusedResolver.resolve refusedCaller ⟨.start [], ()⟩).1.isFatal = false := by
  have hend : refusedResolver.step (refusedResolver.advance 3
      (refusedResolver.begin refusedCaller ⟨.start [], ()⟩)) = none :=
    Option.isNone_iff_eq_none.1 (by decide +kernel)
  refine ⟨locate?_eq_of_text (by decide +kernel), rfl, locate?_eq_of_text (by decide +kernel), ?_⟩
  rw [resolve_eq_of_advance rfl hend]
  decide +kernel

end Resolver

end Provenance
